import Unchain.Conversion.File
import Unchain.Proofs.Placing.SourceFile

/-!
# Which functions of a file are converted

The conversions of a file are made one function after another, and a conversion is left out if it
collides with an earlier one. `Accepts` is what holds after each function (`Accepts.step`) and so
after all of them (`accepts_conversions`).

Suggestions are matched with functions by their starts. A function is therefore converted if it is
suggested itself, or if it only holds a function that is (`suggested_or_holds_suggested`).
-/

namespace Unchain

open Conversion (functions spanOf suggestion?)
open Promise (Names Oracle)
open Syntax (NodeId)

/-! ### Suggestions -/

namespace Conversion

variable {s : SourceFile} {o : Oracle} {names : Names} {function : NodeId}

theorem mem_suggestions {d : Diagnostic} :
    d ∈ suggestions s o names ↔
      ∃ function ∈ functions s.tree o, suggestion? s names function = some d :=
  List.mem_filterMap

/-- Functions are suggested if they are not async and have no other result type than `void` or a
promise. -/
theorem suggestion?_eq_some {d : Diagnostic} (h : suggestion? s names function = some d) :
    ∃ kind f place, s.tree.data? function = some (.function kind f) ∧ f.isAsync = false ∧
      (∀ type, Promise.typeText? s.tree f.declaredType = some type → isAsyncResult names type) ∧
      s.tree.node? (f.name.getD function) = some place ∧ d.start = place.pos := by
  unfold suggestion? at h
  obtain ⟨data, hdata, h⟩ := Option.bind_eq_some_iff.mp h
  split at h
  · next kind f =>
    split at h
    · cases h
    · next hasync =>
      split at h
      · cases h
      · next htype =>
        obtain ⟨place, hplace, h⟩ := Option.bind_eq_some_iff.mp h
        refine ⟨kind, f, place, hdata, by simpa using hasync, fun type hsome => ?_, hplace, ?_⟩
        · simpa [hsome] using htype
        · rw [← Option.some.inj h]
          rfl
  · cases h

/-- Both ends of a node belong to its span. -/
theorem contains_spanOf {t : Syntax.Tree} {id : NodeId} {n : Syntax.Node} {pos : Nat}
    (h : t.node? id = some n) (hpos : n.pos ≤ pos) (hstop : pos ≤ n.stop)
    (hsize : n.stop < Text.offsetCount) : (spanOf t id).contains pos = true := by
  rw [spanOf, h, Option.map_some, Option.getD_some, Text.Span.contains,
    Text.Span.stop_ofBounds (Nat.le_trans hpos hstop) hsize]
  exact Bool.and_eq_true_iff.mpr ⟨decide_eq_true hpos, decide_eq_true hstop⟩

/-- The name of a function, if it has one, starts inside of it. -/
theorem pos_of_name {t : Syntax.Tree} {text : List Char} (ht : t.Nested text)
    {n place : Syntax.Node} {kind : Syntax.FunctionKind} {f : Syntax.Function}
    (hn : t.node? function = some n) (hf : n.data = .function kind f)
    (hplace : t.node? (f.name.getD function) = some place) :
    n.pos ≤ place.pos ∧ place.pos ≤ n.stop := by
  cases hname : f.name with
  | none =>
    rw [hname, Option.getD_none, hn] at hplace
    obtain rfl := Option.some.inj hplace
    exact ⟨Nat.le_refl _, (ht.cut hn).1⟩
  | some name =>
    rw [hname, Option.getD_some] at hplace
    have hchild : name ∈ t.children function := by
      rw [Syntax.Tree.children_of_node? hn, hf]
      simp [Syntax.Data.children, hname]
    have hparent := ht.parent hchild
    rw [Syntax.Tree.parent?, hplace, Option.bind_some] at hparent
    obtain ⟨m, hm, hpos, hstop⟩ := ht.within hplace hparent
    obtain rfl := Option.some.inj (hn.symm.trans hm)
    exact ⟨hpos, Nat.le_trans (ht.cut hplace).1 hstop⟩

/-- A function holds the start of its suggestion. -/
theorem contains_start {d : Diagnostic} (h : suggestion? s names function = some d)
    {text : List Char} (ht : s.tree.Nested text)
    (hsize : Text.byteLength text < Text.offsetCount) :
    (spanOf s.tree function).contains d.start = true := by
  obtain ⟨kind, f, place, hdata, -, -, hplace, hstart⟩ := suggestion?_eq_some h
  obtain ⟨n, hn, hf⟩ := Option.map_eq_some_iff.mp hdata
  obtain ⟨hpos, hstop⟩ := pos_of_name ht hn hf hplace
  rw [hstart]
  exact contains_spanOf hn hpos hstop
    (Nat.lt_of_le_of_lt (ht.cut hn).2.2.le_byteLength hsize)

/-- The conversion of a function is one of that function. -/
theorem function_of_ofFunction? {layout : Printer.Layout} {c : Conversion}
    (h : ofFunction? s o layout function = some c) : c.function = function := by
  unfold ofFunction? at h
  dsimp only at h
  split at h
  · cases h
  · obtain ⟨plan, -, h⟩ := Option.bind_eq_some_iff.mp h
    unfold ofPlan? at h
    split at h
    rw [Option.ite_none_left_eq_some] at h
    rw [← Option.some.inj h.2]

end Conversion

/-! ### One function after another -/

namespace Settings

variable {settings : Settings} {s : SourceFile} {considered : List NodeId}
  {accepted : List Conversion}

/-- What holds of the conversions that were accepted when these functions have been considered. -/
structure Accepts (settings : Settings) (s : SourceFile) (considered : List NodeId)
    (accepted : List Conversion) : Prop where
  sublist : (accepted.map Conversion.function).Sublist considered
  made : ∀ c ∈ accepted, settings.convertFunction? s c.function = some c
  apart : accepted.Pairwise fun earlier later => collide earlier later = false
  collides : ∀ function ∈ considered, ∀ c, settings.convertFunction? s function = some c →
    c ∈ accepted ∨ ∃ earlier ∈ accepted, collide earlier c = true

namespace Accepts

theorem nil (settings : Settings) (s : SourceFile) : Accepts settings s [] [] where
  sublist := .slnil
  made _ hc := nomatch hc
  apart := .nil
  collides _ hfunction := nomatch hfunction

/-- A function that gives no conversion, or one that collides with an earlier one, changes
nothing. -/
theorem leave {function : NodeId} (h : Accepts settings s considered accepted)
    (hout : ∀ c, settings.convertFunction? s function = some c →
      ∃ earlier ∈ accepted, collide earlier c = true) :
    Accepts settings s (considered ++ [function]) accepted where
  sublist := h.sublist.trans (List.sublist_append_left _ _)
  made := h.made
  apart := h.apart
  collides other hother c hc := by
    rcases List.mem_append.mp hother with hother | hother
    · exact h.collides other hother c hc
    · rw [List.mem_singleton.mp hother] at hc
      exact .inr (hout c hc)

/-- A conversion that collides with no earlier one is accepted. -/
theorem take {function : NodeId} {c : Conversion} (h : Accepts settings s considered accepted)
    (hc : settings.convertFunction? s function = some c)
    (hapart : ∀ earlier ∈ accepted, collide earlier c = false) :
    Accepts settings s (considered ++ [function]) (accepted ++ [c]) := by
  have hfunction : c.function = function := Conversion.function_of_ofFunction? hc
  refine ⟨?_, fun c' hc' => ?_, ?_, fun other hother c' hc' => ?_⟩
  · rw [List.map_append, List.map_singleton, hfunction]
    exact h.sublist.append (.refl _)
  · rcases List.mem_append.mp hc' with hc' | hc'
    · exact h.made c' hc'
    · rw [List.mem_singleton.mp hc', hfunction, hc]
  · refine List.pairwise_append.mpr ⟨h.apart, List.pairwise_singleton _ _, fun a ha b hb => ?_⟩
    rw [List.mem_singleton.mp hb]
    exact hapart a ha
  · rcases List.mem_append.mp hother with hother | hother
    · rcases h.collides other hother c' hc' with hmem | ⟨earlier, hmem, hcollide⟩
      · exact .inl (List.mem_append_left _ hmem)
      · exact .inr ⟨earlier, List.mem_append_left _ hmem, hcollide⟩
    · rw [List.mem_singleton.mp hother, hc] at hc'
      exact .inl (List.mem_append_right _ (List.mem_singleton.mpr (Option.some.inj hc').symm))

theorem step (h : Accepts settings s considered accepted) (function : NodeId) :
    Accepts settings s (considered ++ [function])
      (settings.accept s (settings.oracle s) accepted function) := by
  unfold accept
  split
  · next hnone => exact h.leave fun c hc => nomatch hnone.symm.trans hc
  · next c hsome =>
    split
    · next hany =>
      refine h.leave fun c' hc' => ?_
      obtain rfl : c = c' := Option.some.inj (hsome.symm.trans hc')
      exact List.any_eq_true.mp hany
    · next hany =>
      exact h.take hsome fun earlier hearlier => Bool.eq_false_iff.mpr fun hcollide =>
        hany (List.any_eq_true.mpr ⟨earlier, hearlier, hcollide⟩)

/-- What holds after each function holds after all of them. -/
theorem foldl (h : Accepts settings s considered accepted) (functions : List NodeId) :
    Accepts settings s (considered ++ functions)
      (functions.foldl (settings.accept s (settings.oracle s)) accepted) := by
  induction functions generalizing considered accepted with
  | nil => simpa using h
  | cons function functions ih => simpa using ih (h.step function)

end Accepts

/-! ### All functions of a file -/

/-- Whether a function holds the start of a suggestion. -/
def holdsSuggestion (settings : Settings) (s : SourceFile) (function : NodeId) : Bool :=
  ((settings.suggestions s).map Diagnostic.start).any (spanOf s.tree function).contains

/-- The conversions of a file are those of functions that hold the start of a suggestion, as far
as they do not collide. -/
theorem accepts_conversions (h : s.isWellFormed = true) :
    Accepts settings s ((functions s.tree (settings.oracle s)).filter (settings.holdsSuggestion s))
      (settings.conversions s) := by
  have hall := (Accepts.nil settings s).foldl
    ((functions s.tree (settings.oracle s)).filter (settings.holdsSuggestion s))
  rw [List.nil_append] at hall
  rw [conversions, if_pos h]
  exact hall

theorem isWellFormed_of_mem_conversions {c : Conversion} (h : c ∈ settings.conversions s) :
    s.isWellFormed = true := by
  unfold conversions at h
  split at h
  · assumption
  · cases h

/-- A function that is converted is suggested itself, or it holds the start of the suggestion for
another function. -/
theorem suggested_or_holds_suggested {c : Conversion} (h : c ∈ settings.conversions s) :
    (suggestion? s settings.names c.function).isSome ∨
      ∃ inner ∈ functions s.tree (settings.oracle s), inner ≠ c.function ∧
        ∃ d, suggestion? s settings.names inner = some d ∧
          (spanOf s.tree c.function).contains d.start = true := by
  have hwell := isWellFormed_of_mem_conversions h
  have hmem := (accepts_conversions hwell).sublist.subset (List.mem_map_of_mem h)
  obtain ⟨d, hd, hcontains⟩ := by
    simpa [holdsSuggestion] using (List.mem_filter.mp hmem).2
  rw [suggestions, if_pos hwell] at hd
  obtain ⟨function, hfunction, hsuggestion⟩ := Conversion.mem_suggestions.mp hd
  by_cases heq : function = c.function
  · rw [← heq, hsuggestion]
    exact .inl rfl
  · exact .inr ⟨function, hfunction, heq, d, hsuggestion, hcontains⟩

/-- `f` has the result type `number`, so it is not suggested, but `g` in it is. -/
theorem suggested_or_holds_suggested_outer :
    let s := SourceFile.ofSource "a.ts"
      "function f():number{fetch().then(k);return 1;function g(){return fetch().then(h)}}"
    let settings : Settings := {}
    suggestion? s {} 22 = none ∧ ∃ c ∈ settings.conversions s, c.function = 22 ∧
      ∃ inner ∈ functions s.tree (settings.oracle s), inner ≠ c.function ∧
        ∃ d, suggestion? s {} inner = some d ∧
          (spanOf s.tree c.function).contains d.start = true := by
  intro s settings
  have hnone : suggestion? s {} 22 = none := by decide +kernel
  have hconverted : (settings.conversions s).any (·.function = 22) = true := by decide +kernel
  obtain ⟨c, hc, hfunction⟩ := List.any_eq_true.mp hconverted
  have hfunction : c.function = 22 := of_decide_eq_true hfunction
  refine ⟨hnone, c, hc, hfunction, (suggested_or_holds_suggested hc).resolve_left ?_⟩
  simp [hfunction, settings, hnone]

/-- A function that is suggested is converted, unless its conversion collides with another one. -/
theorem mem_conversions_of_suggested {fileName source : String} {function : NodeId}
    {d : Diagnostic} {c : Conversion} (hclean : (SourceFile.ofSource fileName source).errors = [])
    (hsize : Text.byteLength source.toList < Text.offsetCount)
    (hfunction : function ∈ functions (SourceFile.ofSource fileName source).tree
      (settings.oracle (.ofSource fileName source)))
    (hsuggested : suggestion? (.ofSource fileName source) settings.names function = some d)
    (hc : settings.convertFunction? (.ofSource fileName source) function = some c) :
    c ∈ settings.conversions (.ofSource fileName source) ∨
      ∃ earlier ∈ settings.conversions (.ofSource fileName source), collide earlier c = true := by
  have hwell : (SourceFile.ofSource fileName source).isWellFormed = true := by
    rw [SourceTree.isWellFormed, hclean]
    rfl
  have hd : d ∈ settings.suggestions (.ofSource fileName source) := by
    rw [suggestions, if_pos hwell]
    exact Conversion.mem_suggestions.mpr ⟨function, hfunction, hsuggested⟩
  have hholds : settings.holdsSuggestion (.ofSource fileName source) function = true := by
    obtain ⟨_, htree, hplaced, -⟩ := SourceTree.exists_holds hclean
    refine List.any_eq_true.mpr ⟨d.start, List.mem_map_of_mem hd, ?_⟩
    exact Conversion.contains_start hsuggested (htree ▸ hplaced.placed.nested) hsize
  exact (accepts_conversions hwell).collides function
    (List.mem_filter.mpr ⟨hfunction, hholds⟩) c hc

/-- The only function of the text. -/
theorem mem_conversions_of_suggested_single :
    let s := SourceFile.ofSource "a.ts" "function f(){return fetch().then(g)}"
    let settings : Settings := {}
    s.errors = [] ∧ ∃ d c, suggestion? s settings.names 9 = some d ∧
      settings.convertFunction? s 9 = some c ∧
      (c ∈ settings.conversions s ∨
        ∃ earlier ∈ settings.conversions s, collide earlier c = true) := by
  intro s settings
  have hclean : s.errors = [] := by decide +kernel
  have hsome : (suggestion? s settings.names 9).isSome = true ∧
      (settings.convertFunction? s 9).isSome = true := by decide +kernel
  obtain ⟨d, hd⟩ := Option.isSome_iff_exists.mp hsome.1
  obtain ⟨c, hc⟩ := Option.isSome_iff_exists.mp hsome.2
  exact ⟨hclean, d, c, hd, hc,
    mem_conversions_of_suggested hclean (by decide +kernel) (by decide +kernel) hd hc⟩

end Settings

end Unchain
