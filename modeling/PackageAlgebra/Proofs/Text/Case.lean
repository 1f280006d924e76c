import PackageAlgebra.Text.Lowercase

/-!
# Lower Case around an Equals Sign

The two sides of an entry do not see each other when it is put into lower case.

The lower-case form of a text is not put together from those of its pieces: the capital sigma
looks at the letters around it. It does not look past a character that has no case and counts
for it all the same, and the equals sign is one. So an entry in lower case falls apart at the
same place as the entry itself, and into the lower-case forms of its sides.

The table of the characters that have a case goes on far above the equals sign. Its first row
is enough to look the equals sign up.

## Theorems

* `CharSet.contains_ofGaps_cons`: The first row of a table decides on what lies below its end.
* `lowerChars_append_equals`: Lower case on either side of an equals sign.
* `lower_entry`: The lower-case form of an entry.
* `equals_mem_lowerChars_iff`: No equals sign comes or goes in lower case.
-/

namespace PackageAlgebra

/-! ### The beginning of a table -/

namespace CharSet

/-- A reader of gaps has read on: what came in lies at or above the newest boundary. -/
def GapReader.ReadOn (r s : GapReader) : Prop :=
  ∃ more, s.done = more ++ r.done ∧ ∀ b ∈ more, r.done.headD 0 ≤ b

variable {r s t : GapReader}

theorem GapReader.ReadOn.refl (r : GapReader) : r.ReadOn r :=
  ⟨[], rfl, fun _ hb => absurd hb List.not_mem_nil⟩

theorem GapReader.ReadOn.trans (hrs : r.ReadOn s) (hst : s.ReadOn t) : r.ReadOn t := by
  rcases hrs with ⟨more, hs, hmore⟩
  rcases hst with ⟨further, ht, hfurther⟩
  have hhead : r.done.headD 0 ≤ s.done.headD 0 := by
    rw [hs]
    cases more with
    | nil => exact Nat.le_refl _
    | cons b rest => exact hmore b List.mem_cons_self
  refine ⟨further ++ more, by rw [ht, hs, List.append_assoc], fun b hb => ?_⟩
  rcases List.mem_append.1 hb with hb | hb
  · exact Nat.le_trans hhead (hfurther b hb)
  · exact hmore b hb

theorem GapReader.readOn_finish (r : GapReader) : r.ReadOn r.finish :=
  ⟨[r.done.headD 0 + r.gap], rfl, fun b hb => by
    rw [List.mem_singleton.1 hb]
    exact Nat.le_add_right _ _⟩

theorem GapReader.readOn_row (r : GapReader) (text : String) : r.ReadOn (r.row text) := by
  have hchars : ∀ (cs : List Char) (r : GapReader), r.ReadOn (cs.foldl (fun (r : GapReader) c =>
      if c = ' ' then r.finish else { r with gap := r.gap * 36 + digitValue c }) r) := by
    intro cs
    induction cs with
    | nil => exact fun r => .refl r
    | cons c rest ih =>
        intro r
        rw [List.foldl_cons]
        refine GapReader.ReadOn.trans ?_ (ih _)
        by_cases hc : c = ' '
        · rw [if_pos hc]
          exact r.readOn_finish
        · rw [if_neg hc]
          exact .refl r
  exact (hchars text.toList r).trans (readOn_finish _)

theorem GapReader.readOn_rows (r : GapReader) (rows : List String) :
    r.ReadOn (rows.foldl GapReader.row r) := by
  induction rows generalizing r with
  | nil => exact .refl r
  | cons text rest ih => exact (r.readOn_row text).trans (ih _)

/-- The first row of a table decides on the characters that lie below its last boundary. -/
theorem contains_ofGaps_cons {text : String} {rows : List String} {c : Char}
    (h : c.toNat < (GapReader.row ⟨[], 0⟩ text).done.headD 0) :
    (ofGaps (text :: rows)).contains c = (ofGaps [text]).contains c := by
  rcases (GapReader.row ⟨[], 0⟩ text).readOn_rows rows with ⟨more, hdone, hmore⟩
  have hidle : ∀ (bs : List Nat) (inside : Bool), (∀ b ∈ bs, c.toNat < b) →
      bs.foldl (fun inside b => if b ≤ c.toNat then !inside else inside) inside = inside := by
    intro bs
    induction bs with
    | nil => exact fun _ _ => rfl
    | cons b rest ih =>
        intro inside hbs
        have hb := hbs b List.mem_cons_self
        rw [List.foldl_cons, if_neg (by omega)]
        exact ih inside fun d hd => hbs d (List.mem_cons_of_mem b hd)
  unfold ofGaps contains
  simp only [List.foldl_cons, List.foldl_nil, hdone, List.reverse_append, List.foldl_append]
  refine hidle _ _ fun b hb => ?_
  exact Nat.lt_of_lt_of_le h (hmore b (List.mem_reverse.1 hb))

end CharSet

namespace Text

variable {cs : List Char}

/-! ### Lower case beside an equals sign -/

/-- The equals sign has no case. -/
theorem not_cased_equals : cased.contains '=' = false := by
  unfold cased
  rw [CharSet.contains_ofGaps_cons (by decide +kernel)]
  decide +kernel

/-- The equals sign is not passed over where a case is looked for. -/
theorem not_caseIgnorable_equals : caseIgnorable.contains '=' = false := by
  unfold caseIgnorable
  rw [CharSet.contains_ofGaps_cons (by decide +kernel)]
  decide +kernel

/-- Nobody looks past an equals sign. -/
theorem casedNext_append_equals (xs ys : List Char) :
    casedNext (xs ++ '=' :: ys) = casedNext xs := by
  have hcased := not_cased_equals
  have hignorable := not_caseIgnorable_equals
  unfold casedNext
  -- Nothing else about the tables is needed, and they are large.
  generalize cased = p at hcased ⊢
  generalize caseIgnorable = q at hignorable ⊢
  induction xs with
  | nil =>
      rw [List.nil_append, List.dropWhile_cons, hignorable]
      exact hcased
  | cons c rest ih =>
      rw [List.cons_append, List.dropWhile_cons, List.dropWhile_cons]
      by_cases hc : q.contains c = true
      · rw [if_pos hc, if_pos hc]
        exact ih
      · rw [if_neg hc, if_neg hc]

/-- What follows an equals sign is put into lower case as if it stood alone. -/
theorem lowerChars_after_equals (before more cs : List Char) :
    lowerChars (before ++ '=' :: more) cs = lowerChars before cs := by
  induction cs generalizing before with
  | nil => rfl
  | cons c rest ih =>
      have hrest := ih (c :: before)
      rw [List.cons_append] at hrest
      simp only [lowerChars, casedNext_append_equals, hrest]

/-- Lower case on either side of an equals sign. -/
theorem lowerChars_append_equals (before cs rest : List Char) :
    lowerChars before (cs ++ '=' :: rest) = lowerChars before cs ++ '=' :: lowerChars [] rest := by
  induction cs generalizing before with
  | nil =>
      have hsign : lowerChar '=' = ['='] := by decide
      have hrest := lowerChars_after_equals [] before rest
      have hsigma : ¬ '=' = '\u03a3' := by decide
      rw [List.nil_append] at hrest
      simp only [List.nil_append, lowerChars, if_neg hsigma, hsign, hrest, List.singleton_append]
  | cons c cs ih =>
      rw [List.cons_append]
      simp only [lowerChars, casedNext_append_equals, ih, List.append_assoc]

/-- The lower-case form of an entry. -/
theorem lower_entry (key value : String) :
    lower (key ++ "=" ++ value) = lower key ++ "=" ++ lower value := by
  have hsign : "=".toList = ['='] := rfl
  unfold lower
  rw [String.toList_append, String.toList_append, hsign, List.append_assoc, List.singleton_append,
    lowerChars_append_equals, ← String.toList_inj]
  simp only [String.toList_append, String.toList_ofList, hsign, List.append_assoc,
    List.singleton_append]

/-! ### Equals signs in lower case -/

/-- Above the ASCII range no image is as small as an equals sign. -/
theorem lt_lowerCode {n : Nat} (hn : 128 ≤ n) : 61 < lowerCode n := by
  have hruns : (lowerRuns.all fun run => decide (61 < run.1 + run.2.2.2)) = true := by
    decide +kernel
  unfold lowerCode
  split
  · next first length step distance hfound =>
      have hrun := List.all_eq_true.1 hruns _ (List.mem_of_find?_eq_some hfound)
      have hfirst := List.find?_some hfound
      simp only [Bool.and_eq_true, decide_eq_true_eq] at hrun hfirst
      omega
  · omega

theorem toNat_ofNat_le (n : Nat) : (Char.ofNat n).toNat = n ∨ (Char.ofNat n).toNat = 0 := by
  by_cases hn : n.isValidChar
  · refine Or.inl ?_
    rw [Char.ofNat, dif_pos hn]
    rfl
  · refine Or.inr ?_
    rw [Char.ofNat, dif_neg hn]
    rfl

/-- An equals sign is the image of nothing else. -/
theorem eq_of_equals_mem_lowerChar {c : Char} (h : '=' ∈ lowerChar c) : c = '=' := by
  unfold lowerChar at h
  by_cases hascii : c.toNat < 128
  · have hall : ∀ n : Fin 128, (Char.ofNat n).toLower = '=' → Char.ofNat n = '=' := by decide
    rw [if_pos hascii, List.mem_singleton] at h
    have hc := hall ⟨c.toNat, hascii⟩
    rw [Char.ofNat_toNat] at hc
    exact hc h.symm
  · rw [if_neg hascii] at h
    by_cases hdotted : c = '\u0130'
    · rw [if_pos hdotted] at h
      exact absurd h (by decide)
    · rw [if_neg hdotted, List.mem_singleton] at h
      have hcode := lt_lowerCode (Nat.le_of_not_lt hascii)
      have hvalue : ('=').toNat = (Char.ofNat (lowerCode c.toNat)).toNat := congrArg Char.toNat h
      have hsign : ('=').toNat = 61 := rfl
      rcases toNat_ofNat_le (lowerCode c.toNat) with hn | hn <;> omega

/-- No equals sign comes or goes in lower case. -/
theorem equals_mem_lowerChars_iff {before : List Char} : '=' ∈ lowerChars before cs ↔ '=' ∈ cs := by
  refine ⟨fun h => ?_, mem_lowerChars (by decide) (by decide) before⟩
  induction cs generalizing before with
  | nil => exact h
  | cons c rest ih =>
      rw [lowerChars, List.mem_append] at h
      rcases h with h | h
      · refine List.mem_cons.2 (Or.inl (eq_of_equals_mem_lowerChar ?_).symm)
        by_cases hsigma : c = '\u03a3'
        · rw [if_pos hsigma] at h
          split at h <;> exact absurd h (by decide)
        · rwa [if_neg hsigma] at h
      · exact List.mem_cons_of_mem c (ih h)

end Text

end PackageAlgebra
