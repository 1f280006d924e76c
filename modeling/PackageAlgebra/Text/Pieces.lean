/-!
# Pieces of Text

Where a text begins and ends, and how it falls apart at a separator.

The functions work on lists of characters, on which recursion is plain; the
versions on texts carry the same names in the namespace of `String` use.

## Main definitions

* `splitAt`: All pieces between the occurrences of a separator character.
* `cutFirst`, `cutLast`: The two sides of the first or last occurrence.
* `cutText`: The two sides of the first occurrence of a text.
* `beginsWith`, `endsWith`: How a text begins and ends.
* `afterLast`: What follows the last occurrence, the whole text if there is none.
* `beforeFirst`: What precedes the first occurrence, the whole text if there is none.
* `decimal`: A whole number in decimal digits.

## Theorems

* `splitAt_ne_nil`: There is at least one piece.
* `splitAt_of_not_mem`: Without the separator there is one piece.
* `intercalate_splitAt`: The pieces joined again give the text.
* `cutFirst_of_mem`, `cutFirst_of_not_mem`: Whether a text is cut.
-/

namespace PackageAlgebra.Text

/-- The pieces of a list of characters between the occurrences of a separator. -/
def splitAt (sep : Char) : List Char → List (List Char)
  | [] => [[]]
  | c :: rest =>
    if c = sep then [] :: splitAt sep rest
    else match splitAt sep rest with
      | [] => [[c]]
      | piece :: pieces => (c :: piece) :: pieces

/-- There is at least one piece. -/
theorem splitAt_ne_nil (sep : Char) (cs : List Char) : splitAt sep cs ≠ [] := by
  cases cs with
  | nil => simp [splitAt]
  | cons c rest =>
    rw [splitAt]
    split
    · simp
    · split <;> simp

/-- Without the separator there is one piece. -/
theorem splitAt_of_not_mem {sep : Char} {cs : List Char} (h : sep ∉ cs) :
    splitAt sep cs = [cs] := by
  induction cs with
  | nil => rfl
  | cons c rest ih =>
    rw [List.mem_cons, not_or] at h
    rw [splitAt, if_neg (fun e => h.1 e.symm), ih h.2]

/-- The pieces joined again give the text. -/
theorem intercalate_splitAt (sep : Char) (cs : List Char) :
    [sep].intercalate (splitAt sep cs) = cs := by
  induction cs with
  | nil => rfl
  | cons c rest ih =>
    rw [splitAt]
    have hne := splitAt_ne_nil sep rest
    revert ih hne
    cases splitAt sep rest with
    | nil => intro _ hne; exact absurd rfl hne
    | cons piece pieces =>
      intro ih _
      split
      · next h =>
        subst h
        simpa [List.intercalate, List.intersperse] using ih
      · cases pieces with
        | nil => simpa [List.intercalate, List.intersperse] using ih
        | cons q qs => simpa [List.intercalate, List.intersperse] using ih

/-- The pieces of a text between the occurrences of a separator. -/
def split (sep : Char) (s : String) : List String :=
  (splitAt sep s.toList).map String.ofList

/-- The two sides of the first occurrence of a separator. -/
def cutFirst (sep : Char) : List Char → Option (List Char × List Char)
  | [] => none
  | c :: rest =>
    if c = sep then some ([], rest)
    else (cutFirst sep rest).map fun (before, after) => (c :: before, after)

/-- What precedes a separator is cut off if the separator does not occur in it. -/
theorem cutFirst_append {sep : Char} {cs ds : List Char} (h : sep ∉ cs) :
    cutFirst sep (cs ++ sep :: ds) = some (cs, ds) := by
  induction cs with
  | nil => rw [List.nil_append, cutFirst, if_pos rfl]
  | cons c rest ih =>
      rw [List.mem_cons, not_or] at h
      rw [List.cons_append, cutFirst, if_neg fun heq => h.1 heq.symm, ih h.2]
      rfl

/-- Where a separator occurs, it is cut at. -/
theorem cutFirst_of_mem {sep : Char} {cs : List Char} (h : sep ∈ cs) :
    ∃ before after, cutFirst sep cs = some (before, after) ∧ cs = before ++ sep :: after ∧
      sep ∉ before := by
  induction cs with
  | nil => exact absurd h List.not_mem_nil
  | cons c rest ih =>
      by_cases hc : c = sep
      · exact ⟨[], rest, by rw [cutFirst, if_pos hc], by rw [hc, List.nil_append],
          List.not_mem_nil⟩
      · have hrest : sep ∈ rest := (List.mem_cons.1 h).resolve_left fun heq => hc heq.symm
        rcases ih hrest with ⟨before, after, hcut, hrest, hnot⟩
        refine ⟨c :: before, after, ?_, by rw [hrest, List.cons_append], ?_⟩
        · rw [cutFirst, if_neg hc, hcut]
          rfl
        · rw [List.mem_cons, not_or]
          exact ⟨fun heq => hc heq.symm, hnot⟩

/-- A text without a separator is not cut. -/
theorem cutFirst_of_not_mem {sep : Char} {cs : List Char} (h : sep ∉ cs) :
    cutFirst sep cs = none := by
  induction cs with
  | nil => rfl
  | cons c rest ih =>
      rw [List.mem_cons, not_or] at h
      rw [cutFirst, if_neg fun heq => h.1 heq.symm, ih h.2]
      rfl

/-- The two sides of the last occurrence of a separator. -/
def cutLast (sep : Char) (cs : List Char) : Option (List Char × List Char) :=
  (cutFirst sep cs.reverse).map fun (after, before) => (before.reverse, after.reverse)

/-- The two sides of the first occurrence of a text. -/
def cutText (mark : List Char) : List Char → Option (List Char × List Char)
  | [] => if mark.isEmpty then some ([], []) else none
  | c :: rest =>
    if mark.isPrefixOf (c :: rest) then some ([], (c :: rest).drop mark.length)
    else (cutText mark rest).map fun (before, after) => (c :: before, after)

/-- Whether a text begins with another. -/
def beginsWith (head s : String) : Bool := head.toList.isPrefixOf s.toList

/-- Whether a text ends with another. -/
def endsWith (tail s : String) : Bool := tail.toList.isSuffixOf s.toList

/-- What follows the last occurrence of a character, the whole text if there is
    none. -/
def afterLast (sep : Char) (s : String) : String :=
  match cutLast sep s.toList with
  | some (_, after) => String.ofList after
  | none => s

/-- What precedes the first occurrence of a character, the whole text if there
    is none. -/
def beforeFirst (sep : Char) (s : String) : String :=
  match cutFirst sep s.toList with
  | some (before, _) => String.ofList before
  | none => s

/-- What precedes the last occurrence of a character, if there is one. -/
def beforeLast? (sep : Char) (s : String) : Option String :=
  (cutLast sep s.toList).map fun (before, _) => String.ofList before

/-- Whether a text occurs in another. -/
def occursIn (part s : String) : Bool := (cutText part.toList s.toList).isSome

/-- Texts joined with a separator between them. -/
def join (sep : String) : List String → String
  | [] => ""
  | [s] => s
  | s :: rest => s ++ sep ++ join sep rest

/-- A natural number in decimal digits. -/
def decimalNat (n : Nat) : String := String.ofList (Nat.toDigits 10 n)

/-- A whole number in decimal digits, with a minus sign below zero. -/
def decimal (n : Int) : String :=
  match n with
  | .ofNat m => decimalNat m
  | .negSucc m => "-" ++ decimalNat (m + 1)

end PackageAlgebra.Text
