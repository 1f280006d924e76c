import PackageAlgebra.Proofs.Script.Visits

/-!
# Attribution of Calls

Towards what each call of a module counts, and why a visit can tell.

A visit that collects calls keeps two stacks: one of the functions that it is in, and one of the
classes that it is in within the innermost function. A function that is opened within another one
goes by the name of that one, so the innermost name is always that of the outermost function, and
the classes only matter where there is no function yet. They are put away when a function is
opened and put back when it is left.

That the stacks are right after a node, whatever is in the node, is what makes the visit of the next
node right. So both are said of a visit at once: it adds the calls of the node, as they are with
the stacks as it found them, and it changes nothing else.

## Main definitions

* `framesOf`: The functions and classes on a way.
* `callsHeld`: The calls that occur in statements.
* `Collector`: What a visit that collects calls keeps.
* `Collector.visit`: A visit of a node.

## Theorems

* `home_cases`: The names that calls count towards.
* `callSites_eq`: The calls of statements, one by one.
* `Collector.visit_eq`: A visit adds the calls of the node and changes nothing else.
* `visitAll_attributes_calls`: What calls count towards.
-/

namespace PackageAlgebra.Script

variable {module : String} {b : Bindings} {scope : Option String} {classes : List String}
  {statements : List Tree} {t : Tree}

/-! ### Names -/

/-- The functions and classes on a way, the outermost first. -/
def framesOf (path : List Place) : List Frame := path.filterMap Place.frame?

/-- What is called, if a node is a call. -/
def Tree.called? : Tree → Option Tree
  | call func _ => some func
  | _ => none

/-- The calls that occur in statements, in the order of a visit, each with the functions and classes
    around it and with what is called. -/
def callsHeld (statements : List Tree) : List (List Frame × Tree) :=
  (statements.flatMap Tree.visited).filterMap fun o => o.2.called?.map (framesOf o.1, ·)

theorem outermost?_classes (above classes : List String) (rest : List Frame) :
    outermost? above (classes.map .classDef ++ rest) = outermost? (above ++ classes) rest := by
  induction classes generalizing above with
  | nil => rw [List.append_nil, List.map_nil, List.nil_append]
  | cons name classes ih =>
      rw [List.map_cons, List.cons_append, outermost?, ih, List.append_assoc, List.singleton_append]

/-- The classes at the beginning of a path lead to its end or to a function. -/
theorem frames_cases (path : List Frame) :
    (∃ classes : List String, path = classes.map .classDef) ∨
      ∃ (classes : List String) (f : String) (inner : List Frame),
        path = classes.map .classDef ++ .function f :: inner := by
  induction path with
  | nil => exact .inl ⟨[], rfl⟩
  | cons frame path ih =>
      cases frame with
      | function f => exact .inr ⟨[], f, path, rfl⟩
      | classDef name =>
          rcases ih with ⟨classes, rfl⟩ | ⟨classes, f, inner, rfl⟩
          · exact .inl ⟨name :: classes, rfl⟩
          · exact .inr ⟨name :: classes, f, inner, rfl⟩

/-- Where there is no function, calls count towards the body of the module. Else they count towards
    the outermost function, by the names of the classes around it and its own. -/
theorem home_cases (path : List Frame) :
    (∃ classes : List String, path = classes.map .classDef ∧ home path = moduleBody) ∨
      ∃ (classes : List String) (f : String) (inner : List Frame),
        path = classes.map .classDef ++ .function f :: inner ∧
          home path = Text.join "." (classes ++ [f]) := by
  unfold home
  rcases frames_cases path with ⟨classes, rfl⟩ | ⟨classes, f, inner, rfl⟩
  · refine .inl ⟨classes, rfl, ?_⟩
    rw [← List.append_nil (classes.map Frame.classDef), outermost?_classes]
    rfl
  · refine .inr ⟨classes, f, inner, rfl, ?_⟩
    rw [outermost?_classes]
    rfl

/-! ### The calls of a node, one by one -/

theorem callSites_eq_flatMap (scope : Option String) (classes : List String) (ts : List Tree) :
    callSites scope classes ts = ts.flatMap (callSitesIn scope classes) := by
  induction ts with
  | nil => rfl
  | cons t rest ih => rw [callSites, ih, List.flatMap_cons]

/-- First comes the call that the node is, and then those of its parts. -/
theorem callSitesIn_eq_children (scope : Option String) (classes : List String) (t : Tree) :
    callSitesIn scope classes t = (t.called?.map (CallSite.mk scope)).toList ++
      t.children.flatMap
        (callSitesIn (around scope classes t.frame?).1 (around scope classes t.frame?).2) := by
  cases t <;>
    simp [callSitesIn, Tree.called?, callSites_eq_flatMap, Tree.children, Tree.frame?, around]

/-- What has been taken along on a way is the outermost function of it. -/
theorem foldl_around (path : List Place) (s : Option String × List String) :
    (path.foldl (fun s place => around s.1 s.2 place.frame?) s).1 =
      s.1.or (outermost? s.2 (framesOf path)) := by
  induction path generalizing s with
  | nil => exact (Option.or_none).symm
  | cons place rest ih =>
      rw [List.foldl_cons, ih, outermost?_around]
      unfold framesOf
      cases hframe : place.frame? <;> simp [hframe]

/-- The calls of statements are those that occur in them, each with the outermost function
    around it. -/
theorem callSites_eq (statements : List Tree) :
    callSites none [] statements =
      (callsHeld statements).map fun e => ⟨outermost? [] e.1, e.2⟩ := by
  have hnode : ∀ t, callSitesIn none [] t =
      t.visited.filterMap fun o =>
        o.2.called?.map (CallSite.mk (outermost? [] (framesOf o.1))) := by
    intro t
    rw [eq_flatMap_visited (fun s place => around s.1 s.2 place.frame?)
      (fun s t => (t.called?.map (CallSite.mk s.1)).toList) (fun s => callSitesIn s.1 s.2)
      (fun s t => ?_) (none, []) t]
    · simp only [foldl_around, Option.none_or, List.filterMap_eq_flatMap_toList]
    · rw [callSitesIn_eq_children, ← Tree.flatMap_parts fun frame =>
        callSitesIn (around s.1 s.2 frame).1 (around s.1 s.2 frame).2]
  rw [callSites_eq_flatMap, funext hnode, callsHeld, List.map_filterMap, List.filterMap_flatMap]
  simp only [Option.map_map]
  rfl

/-! ### A visit with stacks -/

/-- What a visit that collects calls keeps. -/
structure Collector where
  -- The functions that it is in, the innermost last, each by the name that its calls count towards.
  scope : List String := []
  -- The classes that it is in within the innermost function, the outermost first.
  classes : List String := []
  -- The calls so far, each as its caller and what is called.
  calls : List (String × String) := []
  -- The callers of lookups so far.
  dynamic : List String := []

namespace Collector

/-- The symbol that a call counts towards where the visit is. -/
def current (module : String) (c : Collector) : String :=
  symbolOf module (c.scope.getLast?.getD moduleBody)

/-- Take note of a node, if it is a call. -/
def note (module : String) (b : Bindings) (t : Tree) (c : Collector) : Collector :=
  match t.called? with
  | none => c
  | some func =>
    { c with
      calls := c.calls ++
        ((callee? module b ⟨c.scope.getLast?, func⟩).map (c.current module, ·)).toList
      dynamic :=
        if (calledName? func).any lookups.contains then c.dynamic ++ [c.current module]
        else c.dynamic }

/-- Go on to the parts of a node. -/
def push (c : Collector) : Option Frame → Collector
  | none => c
  | some (.function name) =>
    { c with scope := c.scope ++ [enter c.scope.getLast? c.classes name], classes := [] }
  | some (.classDef name) => { c with classes := c.classes ++ [name] }

/-- Come back from the parts of a node, given the classes before. -/
def pop (saved : List String) (c : Collector) : Option Frame → Collector
  | none => c
  | some (.function _) => { c with scope := c.scope.dropLast, classes := saved }
  | some (.classDef _) => { c with classes := c.classes.dropLast }

/-- Visit a node and all that is in it. -/
def visit (module : String) (b : Bindings) (t : Tree) (c : Collector) : Collector :=
  pop c.classes
    (t.children.attach.foldl (fun c ⟨u, _⟩ => visit module b u c)
      ((note module b t c).push t.frame?))
    t.frame?
termination_by sizeOf t
decreasing_by exact Tree.sizeOf_lt_of_mem_children ‹_›

/-- Visit statements, one after the other. -/
def visitAll (module : String) (b : Bindings) (ts : List Tree) (c : Collector) : Collector :=
  ts.foldl (fun c t => visit module b t c) c

/-- A visit that has met further calls. -/
def meet (module : String) (b : Bindings) (c : Collector) (sites : List CallSite) : Collector :=
  { c with
    calls := c.calls ++
      sites.filterMap fun site => (callee? module b site).map (caller module site, ·)
    dynamic := c.dynamic ++
      (sites.filter fun site => (calledName? site.called).any lookups.contains).map
        (caller module) }

variable {c : Collector} {sites more : List CallSite}

theorem meet_nil : c.meet module b [] = c := by
  simp only [meet, List.filterMap_nil, List.filter_nil, List.map_nil, List.append_nil]

theorem meet_append :
    c.meet module b (sites ++ more) = (c.meet module b sites).meet module b more := by
  simp only [meet, List.filterMap_append, List.filter_append, List.map_append, List.append_assoc]

theorem note_eq (t : Tree) (c : Collector) :
    note module b t c =
      c.meet module b (t.called?.map (CallSite.mk c.scope.getLast?)).toList := by
  unfold note
  cases t.called? with
  | none => exact meet_nil.symm
  | some func =>
      by_cases hlookup : (calledName? func).any lookups.contains = true <;>
        simp [meet, current, caller, hlookup, List.filterMap_eq_flatMap_toList]

/-- A visit of the parts of a node has the stacks that the calls in them are to be read with. -/
theorem around_push (c : Collector) (frame : Option Frame) :
    ((c.push frame).scope.getLast?, (c.push frame).classes) =
      around c.scope.getLast? c.classes frame := by
  rcases frame with _ | ⟨name⟩ | ⟨name⟩ <;> simp [push, around]

/-- Coming back undoes going on, and leaves the calls that have been met. -/
theorem pop_meet_push (c : Collector) (frame : Option Frame) (sites : List CallSite) :
    pop c.classes ((c.push frame).meet module b sites) frame = c.meet module b sites := by
  rcases frame with _ | ⟨name⟩ | ⟨name⟩ <;> simp [pop, push, meet]

/-- A visit adds the calls of the node, as they are with the stacks that it finds, and changes
    nothing else. -/
theorem visit_eq (t : Tree) (c : Collector) :
    visit module b t c = c.meet module b (callSitesIn c.scope.getLast? c.classes t) := by
  induction t using Tree.induction_children generalizing c with
  | h t ih =>
    -- The stacks are as before after each part, so the next part finds them as the first one did.
    have hparts : ∀ ts ⊆ t.children, ∀ c, ts.foldl (fun c u => visit module b u c) c =
        c.meet module b (ts.flatMap (callSitesIn c.scope.getLast? c.classes)) := by
      intro ts hts
      induction ts with
      | nil => exact fun c => meet_nil.symm
      | cons u rest ihrest =>
          intro c
          rw [List.cons_subset] at hts
          rw [List.foldl_cons, ih u hts.1, ihrest hts.2, List.flatMap_cons, meet_append]
          rfl
    rw [visit, List.foldl_subtype fun _ _ _ => rfl, List.unattach_attach,
      hparts t.children (List.Subset.refl _), note_eq]
    refine (pop_meet_push (c.meet module b _) t.frame? _).trans ?_
    have hstacks := around_push
      (c.meet module b (t.called?.map (CallSite.mk c.scope.getLast?)).toList) t.frame?
    rw [callSitesIn_eq_children, meet_append]
    congr 2
    exact congrArg (fun s => callSitesIn s.1 s.2) hstacks

/-- A visit of statements adds their calls. -/
theorem visitAll_eq (ts : List Tree) (c : Collector) :
    visitAll module b ts c = c.meet module b (callSites c.scope.getLast? c.classes ts) := by
  unfold visitAll
  induction ts generalizing c with
  | nil => exact meet_nil.symm
  | cons t rest ih =>
      rw [List.foldl_cons, ih, visit_eq, callSites, meet_append]
      rfl

end Collector

/-- The calls of a module are met one by one, in the order of a visit, and each counts towards one
    symbol: that of the outermost function around it, by the names of the classes around that
    function and its own, or that of the body of the module if it is in no function. The same goes
    for lookups. A visit with stacks tells this right, because after any node the stacks are as they
    were before, and what it collects are the calls of the module and the callers of lookups. -/
theorem visitAll_attributes_calls (module : String) (statements : List Tree) :
    let b := bindings statements
    let done := Collector.visitAll module b statements {}
    let held := callsHeld statements
    let names := moduleBody :: statements.flatMap symbolNames
    (callSites none [] statements).map (fun site => (caller module site, site.called)) =
      held.map (fun e => (symbolOf module (home e.1), e.2)) ∧
    (∀ path : List Frame,
      (∃ classes : List String, path = classes.map .classDef ∧
        symbolOf module (home path) = module ++ ":" ++ "<module>") ∨
      ∃ (classes : List String) (f : String) (inner : List Frame),
        path = classes.map .classDef ++ .function f :: inner ∧
          symbolOf module (home path) = module ++ ":" ++ Text.join "." (classes ++ [f])) ∧
    (∀ t c, (Collector.visit module b t c).scope = c.scope ∧
      (Collector.visit module b t c).classes = c.classes) ∧
    done.calls = held.filterMap (fun e =>
      (callee? module b ⟨outermost? [] e.1, e.2⟩).map (symbolOf module (home e.1), ·)) ∧
    done.dynamic = (held.filter fun e => (calledName? e.2).any lookups.contains).map
      (fun e => symbolOf module (home e.1)) ∧
    moduleCalls module statements =
      ⟨.ofList (names.map fun n =>
          (symbolOf module n, ⟨module, done.dynamic.contains (symbolOf module n)⟩)),
        done.calls⟩ := by
  intro b done held names
  have hdone : done = Collector.meet module b {} (callSites none [] statements) :=
    Collector.visitAll_eq statements {}
  refine ⟨?_, fun path => ?_, fun t c => ?_, ?_, ?_, ?_⟩
  · rw [callSites_eq, List.map_map]
    rfl
  · rcases home_cases path with ⟨classes, hpath, hhome⟩ | ⟨classes, f, inner, hpath, hhome⟩
    · exact .inl ⟨classes, hpath, by rw [hhome]; rfl⟩
    · exact .inr ⟨classes, f, inner, hpath, by rw [hhome]; rfl⟩
  · rw [Collector.visit_eq]
    exact ⟨rfl, rfl⟩
  · rw [hdone, callSites_eq]
    exact List.filterMap_map
  · rw [hdone, callSites_eq]
    unfold Collector.meet
    rw [List.nil_append, List.filter_map, List.map_map]
    rfl
  · rw [hdone]
    rfl

/-- A module with a function, and with a method that has a default, a decorator and a class in it. -/
def payStatements : List Tree :=
  [.importFrom 0 "cart" [⟨"total", none⟩],
    .classDef "Till" []
      [.function "pay" [.call (.name "total") []]
        [.classDef "Slip" []
            [.function "sign" [] [.call (.member (.name "self") "push") []] []] [],
          .call (.name "getattr") [.name "self", .name "tax"]]
        [.call (.name "cached") []],
        .call (.name "open") []] [],
    .function "run" [] [.call (.name "Till") []] []]

/-- Within the method, a default, a decorator and a method of an inner class count alike, and the
    method looks something up. Of the calls, those are collected that tell what they call; the
    others leave no trace. -/
theorem visitAll_attributes_calls_pay :
    let done := Collector.visitAll "shop" (bindings payStatements) payStatements {}
    (callSites none [] payStatements).map (caller "shop") =
        ["shop:Till.pay", "shop:Till.pay", "shop:Till.pay", "shop:Till.pay", "shop:<module>",
          "shop:run"] ∧
      done.calls = [("shop:Till.pay", "cart:total"), ("shop:Till.pay", "shop:Till.push"),
        ("shop:run", "shop:Till")] ∧
      done.dynamic = ["shop:Till.pay"] ∧
      (moduleCalls "shop" payStatements).nodes.entries = [("shop:<module>", ⟨"shop", false⟩),
        ("shop:Till.pay", ⟨"shop", true⟩), ("shop:run", ⟨"shop", false⟩)] := by
  intro done
  rcases visitAll_attributes_calls "shop" payStatements with
    ⟨hsites, -, -, hcalls, hdynamic, hmodule⟩
  have hcallers : (callSites none [] payStatements).map (caller "shop") =
      (callsHeld payStatements).map fun e => symbolOf "shop" (home e.1) := by
    have hfirst := congrArg (List.map Prod.fst) hsites
    rwa [List.map_map, List.map_map] at hfirst
  have hmarked : done.dynamic = ["shop:Till.pay"] := hdynamic.trans (by decide +kernel)
  refine ⟨hcallers.trans (by decide +kernel), hcalls.trans (by decide +kernel), hmarked, ?_⟩
  rw [hmodule]
  dsimp only
  rw [hmarked]
  decide +kernel

end PackageAlgebra.Script
