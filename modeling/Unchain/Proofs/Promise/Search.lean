import Mathlib.Data.List.Perm.Subperm
import Unchain.Proofs.Promise.Derives
import Unchain.Proofs.Syntax.Growth

/-!
# The search finds what the rules find

The oracle searches depth first and cuts off a question about a node that it is already asking
about. The search always comes to an answer and leaves no node behind (`run_searchUpTo`). The
answer is yes exactly for what the rules derive: a step of the oracle follows the rules, and of a
derivation the shortest one asks about no node twice on any path, so that nothing is cut off
(`searchAmong_of_answersWithin`).
-/

namespace Unchain.Promise

open Syntax (Data NodeId Tree)

variable {t : Tree} {b : Binding.Table} {names : Names}

/-! ### The search without its state -/

/-- The answer to a question while those about the nodes `waiting` wait for theirs. -/
def searchAmong (t : Tree) (b : Binding.Table) (names : Names) :
    Nat → List NodeId → Question → Id Bool
  | 0, _, _ => false
  | fuel + 1, waiting, q =>
    if waiting.contains q.node then false
    else Rules.answer t b names (searchAmong t b names fuel (q.node :: waiting)) q

/-- Different nodes of the tree, all of which are asked about. -/
structure IsPath (t : Tree) (waiting : List NodeId) : Prop where
  nodup : waiting.Nodup
  lt_size : ∀ id ∈ waiting, id < t.size

theorem IsPath.nil : IsPath t [] := ⟨List.nodup_nil, by simp⟩

theorem IsPath.cons {waiting : List NodeId} {id : NodeId} (h : IsPath t waiting)
    (hid : id < t.size) (hnew : id ∉ waiting) : IsPath t (id :: waiting) :=
  ⟨List.nodup_cons.mpr ⟨hnew, h.nodup⟩, List.forall_mem_cons.mpr ⟨hid, h.lt_size⟩⟩

/-- A path is no longer than there are nodes. -/
theorem IsPath.length_le {waiting : List NodeId} (h : IsPath t waiting) :
    waiting.length ≤ t.size := by
  have hsub : waiting ⊆ List.range t.size := fun id hid => List.mem_range.mpr (h.lt_size id hid)
  simpa using (h.nodup.subperm hsub).length_le

/-! ### The search leaves no node behind -/

/-- Searches that answer and leave the nodes that are asked about as they were. -/
theorem respected_run (waiting : List NodeId) :
    Respected (m := Search) (n := Id) fun x a => x.run waiting = some (a, waiting) where
  pure _ := rfl
  both {x a y b} hx hy := by
    cases a <;> simp [both, hx, hy] <;> rfl

theorem run_guarded_of_mem {waiting : List NodeId} {node : NodeId} (h : node ∈ waiting)
    (x : Search Bool) : (guarded node x).run waiting = some (false, waiting) := by
  simp [guarded, h]

theorem run_guarded {waiting : List NodeId} {node : NodeId} {x : Search Bool} {a : Bool}
    (h : node ∉ waiting) (hx : x.run (node :: waiting) = some (a, node :: waiting)) :
    (guarded node x).run waiting = some (a, waiting) := by
  simp [guarded, h, hx]

/-- Nothing is asked about a node that does not exist. -/
theorem answer_of_le {m : Type → Type} [Monad m] {ask : Question → m Bool} {q : Question}
    (hq : t.size ≤ q.node) : Rules.answer t b names ask q = pure false := by
  have hnone : t.data? q.node = none := by
    simpa [Tree.data?, Tree.node?, Tree.size] using hq
  cases q <;> simp only [Question.node] at hnone <;>
    simp only [Rules.answer, Rules.isPromiseValue, Rules.isPromiseFunction,
      Rules.isPromiseVariable, hnone]

/-- The search answers if the fuel covers the nodes that are not asked about yet, and leaves those
that are as they were. -/
theorem run_searchUpTo {fuel : Nat} {waiting : List NodeId} (hpath : IsPath t waiting)
    (hfuel : t.size < fuel + waiting.length) (q : Question) :
    (searchUpTo t b names fuel q).run waiting =
      some (searchAmong t b names fuel waiting q, waiting) := by
  induction fuel generalizing waiting q with
  | zero =>
    have := hpath.length_le
    omega
  | succ fuel ih =>
    rw [searchUpTo, searchAmong]
    by_cases hwaiting : q.node ∈ waiting
    · rw [run_guarded_of_mem hwaiting, if_pos (List.contains_iff_mem.mpr hwaiting)]
    rw [if_neg (by simpa using hwaiting)]
    refine run_guarded hwaiting ?_
    by_cases hq : q.node < t.size
    · refine Rules.respected_answer (respected_run _) (ih (hpath.cons hq hwaiting) ?_) q
      rw [List.length_cons]
      omega
    · rw [answer_of_le (Nat.le_of_not_lt hq), answer_of_le (Nat.le_of_not_lt hq)]
      rfl

/-! ### The search finds nothing else, and misses nothing -/

theorem derives_of_searchAmong {fuel : Nat} {waiting : List NodeId} {q : Question}
    (h : searchAmong t b names fuel waiting q = true) : Derives t b names q.finding := by
  induction fuel generalizing waiting q with
  | zero => cases h
  | succ fuel ih =>
    rw [searchAmong] at h
    split at h
    · cases h
    · exact Rules.derives_of_answer (fun _ => ih) h

/-- Only one question about a node can have the answer yes. -/
theorem eq_of_answersWithin {n k : Nat} {q r : Question} (hnode : q.node = r.node)
    (hq : answersWithin t b names n q = true) (hr : answersWithin t b names k r = true) :
    q = r := by
  obtain ⟨data, hdata, hq⟩ := questionAbout_of_answersWithin hq
  obtain ⟨data', hdata', hr⟩ := questionAbout_of_answersWithin hr
  rw [← hnode] at hdata' hr
  obtain rfl := Option.some.inj (hdata.symm.trans hdata')
  exact Option.some.inj (hq.symm.trans hr)

/-- A question that `n` steps answer with yes is answered so by the search, as long as it waits
only for questions that `n` steps do not answer with yes. -/
theorem searchAmong_of_answersWithin {n fuel : Nat} {waiting : List NodeId} {q : Question}
    (hq : answersWithin t b names n q = true) (hpath : IsPath t waiting)
    (hfuel : t.size < fuel + waiting.length)
    (hlater : ∀ r, r.node ∈ waiting → answersWithin t b names n r ≠ true) :
    searchAmong t b names fuel waiting q = true := by
  induction n generalizing fuel waiting q with
  | zero => cases hq
  | succ n ih =>
    have hlater' r (hr : r.node ∈ waiting) : answersWithin t b names n r ≠ true :=
      fun h => hlater r hr (answersWithin_succ h)
    -- Of the numbers of steps that answer the question, the least one decides.
    by_cases hearly : answersWithin t b names n q = true
    · exact ih hearly hpath hfuel hlater'
    cases fuel with
    | zero =>
      have := hpath.length_le
      omega
    | succ fuel =>
      have hnew : q.node ∉ waiting := fun hmem => hlater q hmem hq
      obtain ⟨data, hdata, -⟩ := questionAbout_of_answersWithin hq
      have hlt : q.node < t.size := Tree.lt_size_of_data? hdata
      rw [searchAmong, if_neg (by simpa using hnew)]
      refine Rules.respected_answer respected_imp (fun r hr => ?_) q hq
      refine ih hr (hpath.cons hlt hnew) (by rw [List.length_cons]; omega) ?_
      intro r' hr' hanswer
      rcases List.mem_cons.mp hr' with hnode | hmem
      · exact hearly (eq_of_answersWithin hnode hanswer hq ▸ hanswer)
      · exact hlater' r' hmem hanswer

/-- A search that waits for nothing answers yes exactly for what the rules find. -/
theorem searchAmong_nil_iff {q : Question} :
    searchAmong t b names (t.size + 1) [] q = true ↔ Derives t b names q.finding := by
  refine ⟨derives_of_searchAmong, fun h => ?_⟩
  obtain ⟨n, hn⟩ := foundWithin_of_derives h
  have hn : answersWithin t b names n q = true := by cases q <;> exact hn
  exact searchAmong_of_answersWithin hn .nil (by simp) (by simp)

variable (t b names) in
theorem run_search (q : Question) :
    ∃ a, (search t b names q).run [] = some (a, []) ∧
      (a = true ↔ Derives t b names q.finding) :=
  ⟨_, run_searchUpTo .nil (by simp) q, searchAmong_nil_iff⟩

theorem decides_iff {q : Question} :
    decides t b names q = true ↔ Derives t b names q.finding := by
  obtain ⟨a, hrun, ha⟩ := run_search t b names q
  simp [decides, hrun, ha]

theorem lt_size_of_derives {id : NodeId} (h : Derives t b names (.promise id)) : id < t.size := by
  obtain ⟨n, hn⟩ := foundWithin_of_derives h
  obtain ⟨data, hdata, -⟩ := questionAbout_of_answersWithin hn
  exact Tree.lt_size_of_data? hdata

/-- The oracle of a file answers every expression as a search does. -/
theorem isPromise_ofFile_iff (s : SourceFile) (id : NodeId) :
    (Oracle.ofFile s names).isPromise id = true ↔
      Derives s.tree s.bindings names (.promise id) := by
  by_cases hid : id < s.tree.size
  · have hanswer : (Oracle.ofFile s names).isPromise id =
        decides s.tree s.bindings names (.value id) := by
      simp [Oracle.ofFile, hid, Thunk.get]
    rw [hanswer]
    exact decides_iff
  · have hnone : (Oracle.ofFile s names).isPromise id = false := by
      simp [Oracle.ofFile, hid]
    simpa [hnone] using fun h => hid (lt_size_of_derives h)

/-- Questions that are asked one after the other, in any order, are all answered by the rules
alone: each search ends, with no node left that is asked about, and says yes exactly for what is
in the least set of findings. The oracle of a file gives the same answers. -/
theorem searches_find_derived (s : SourceFile) (names : Names) :
    (∀ questions : List Question, ∃ answers,
      (questions.mapM (search s.tree s.bindings names)).run [] = some (answers, []) ∧
        List.Forall₂ (fun q a => a = true ↔ Derives s.tree s.bindings names q.finding)
          questions answers) ∧
      ∀ id, (Oracle.ofFile s names).isPromise id = true ↔
        Derives s.tree s.bindings names (.promise id) := by
  refine ⟨fun questions => ?_, isPromise_ofFile_iff s⟩
  induction questions with
  | nil => exact ⟨[], rfl, .nil⟩
  | cons q questions ih =>
    obtain ⟨a, hrun, ha⟩ := run_search s.tree s.bindings names q
    obtain ⟨answers, hruns, hanswers⟩ := ih
    exact ⟨a :: answers, by simp [hrun, hruns], .cons ha hanswers⟩

end Unchain.Promise
