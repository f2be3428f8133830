import Unchain.Binding.Resolve
import Unchain.Proofs.Syntax.Rows

/-!
# Names that may refer to something

The walk that resolves references meets names in a fixed order, each in a scope
that only the table before the walk decides (`usesUpTo`). In the tree of a text
without errors it meets no name twice, and the names stand in the order of the
text (`pairwise_usesUpTo`).
-/

namespace Unchain.Binding

open Syntax (Data NodeId Tree)

/-- A name where it may refer to something: the scope that it stands in, its node and its text. -/
structure Use where
  scope : ScopeId
  node : NodeId
  name : String
  deriving DecidableEq, Repr

/-- The parts of a node in which names are resolved, each with the scope that it stands in. -/
def usedParts (t : Tree) (scope inner : ScopeId) (data : Data) : List (ScopeId × NodeId) :=
  (outerKey t data).map (scope, ·) ++ (referringParts t data).map (inner, ·)

/-- The names below a node that stands in a scope, in the order in which they are met. -/
def usesUpTo (t : Tree) (scopeAt? : NodeId → Option ScopeId) : Nat → ScopeId → NodeId → List Use
  | 0, _, _ => []
  | fuel + 1, scope, id =>
    match t.data? id with
    | none => []
    | some (.identifier name) => [⟨scope, id, name⟩]
    | some data => (usedParts t scope ((scopeAt? id).getD scope) data).flatMap fun part =>
        usesUpTo t scopeAt? fuel part.1 part.2

variable {t : Tree} {scopeAt? : NodeId → Option ScopeId} {fuel : Nat} {scope : ScopeId}
  {id : NodeId} {text : List Char}

/-! ### Parts with names -/

/-- Names are resolved in children only, and in their order. -/
theorem sublist_children (t : Tree) (data : Data) :
    (outerKey t data ++ referringParts t data).Sublist data.children := by
  have hkey (name : Option NodeId) :
      (if isComputedName t name then name.toList else []).Sublist name.toList := by
    split
    · exact .refl _
    · exact List.nil_sublist _
  cases data with
  | access k e member questionDot =>
    cases k with
    | property => exact List.sublist_append_left _ _
    | element => exact .refl _
  | property k name initializer =>
    cases k with
    | assigned => exact (hkey name).append (.refl _)
    | shorthand => exact .refl _
  | propertyDeclaration p =>
    refine (hkey p.name).append (.refl _) |>.trans ?_
    simp [Data.children]
  | bindingElement isRest key name initializer =>
    exact ((hkey key).append (.refl _)).append (.refl _)
  | parameter p =>
    have hname : (if (t.partData? p.name).any Data.isIdentifier then [] else p.name.toList).Sublist
        p.name.toList := by
      split
      · exact List.nil_sublist _
      · exact .refl _
    have hfirst := (hname.trans (List.sublist_append_right (Data.listNodes p.modifiers) _)).trans
      (List.sublist_append_left _ p.declaredType.toList)
    exact hfirst.append (.refl p.initializer.toList)
  | labeled label statement => exact List.sublist_append_right _ _
  | jump k label => exact List.nil_sublist _
  | function k f =>
    have hname : (outerKey t (.function k f)).Sublist f.name.toList := by
      cases k <;> first | exact List.nil_sublist _ | exact hkey f.name
    have hfirst := (hname.trans (List.sublist_append_right (Data.listNodes f.modifiers) _)).trans
      (List.sublist_append_left _ f.typeParameters.toList)
    have hsecond := (hfirst.append (.refl f.parameters.nodes)).trans
      (List.sublist_append_left _ f.declaredType.toList)
    have hall := hsecond.append (.refl f.body.toList)
    rwa [List.append_assoc] at hall
  | _ => exact .refl _

theorem map_snd_usedParts (t : Tree) (scope inner : ScopeId) (data : Data) :
    (usedParts t scope inner data).map Prod.snd = outerKey t data ++ referringParts t data := by
  simp [usedParts, Function.comp_def]

theorem sublist_usedParts (t : Tree) (scope inner : ScopeId) (data : Data) :
    ((usedParts t scope inner data).map Prod.snd).Sublist data.children :=
  map_snd_usedParts t scope inner data ▸ sublist_children t data

/-- A node that keeps its text shows no names. -/
theorem usesUpTo_of_isText (h : t.IsText id) : usesUpTo t scopeAt? fuel scope id = [] := by
  obtain ⟨k, s, hdata⟩ := h
  cases fuel with
  | zero => rfl
  | succ fuel => rw [usesUpTo, hdata]; rfl

/-! ### The names that are met -/

theorem data?_of_mem_usesUpTo {u : Use} (h : u ∈ usesUpTo t scopeAt? fuel scope id) :
    t.data? u.node = some (.identifier u.name) := by
  induction fuel generalizing scope id with
  | zero => cases h
  | succ fuel ih =>
    rw [usesUpTo] at h
    split at h
    · cases h
    · next name hdata =>
      rw [List.mem_singleton.mp h]
      exact hdata
    · obtain ⟨part, -, hmem⟩ := List.mem_flatMap.mp h
      exact ih hmem

theorem below_of_mem_usesUpTo {u : Use} (h : u ∈ usesUpTo t scopeAt? fuel scope id) :
    t.Below id u.node := by
  induction fuel generalizing scope id with
  | zero => cases h
  | succ fuel ih =>
    rw [usesUpTo] at h
    split at h
    · cases h
    · rw [List.mem_singleton.mp h]
      exact .refl
    · next data _ hdata =>
      obtain ⟨part, hpart, hmem⟩ := List.mem_flatMap.mp h
      refine .of_child ?_ (ih hmem)
      rw [Tree.children, hdata]
      exact (sublist_usedParts t scope _ data).subset (List.mem_map_of_mem hpart)

/-- A name that is met is one of the parts of its parent in which names are resolved. So it is no
key, no member name and no label. -/
theorem referring_of_mem_usesUpTo (ht : t.Nested text) {u : Use}
    (h : u ∈ usesUpTo t scopeAt? fuel scope id) : u.node = id ∨ ∃ parent d,
      t.parent? u.node = some parent ∧ t.data? parent = some d ∧
        u.node ∈ outerKey t d ++ referringParts t d := by
  induction fuel generalizing scope id with
  | zero => cases h
  | succ fuel ih =>
    rw [usesUpTo] at h
    split at h
    · cases h
    · rw [List.mem_singleton.mp h]
      exact .inl rfl
    · next data _ hdata =>
      obtain ⟨part, hpart, hmem⟩ := List.mem_flatMap.mp h
      rcases ih hmem with hnode | hparent
      · have hchild : part.2 ∈ (usedParts t scope ((scopeAt? id).getD scope) data).map Prod.snd :=
          List.mem_map_of_mem hpart
        have hmem : part.2 ∈ t.children id := by
          rw [Tree.children, hdata]
          exact (sublist_usedParts ..).subset hchild
        rw [hnode]
        exact .inr ⟨id, data, ht.parent hmem, hdata, map_snd_usedParts t scope _ data ▸ hchild⟩
      · exact .inr hparent

/-- No name is met twice, and the names stand in the order of the text. -/
theorem pairwise_usesUpTo (ht : t.Nested text) : (usesUpTo t scopeAt? fuel scope id).Pairwise
    fun u v => u.node ≠ v.node ∧ t.Before u.node v.node := by
  induction fuel generalizing scope id with
  | zero => exact .nil
  | succ fuel ih =>
    rw [usesUpTo]
    split
    · exact .nil
    · exact List.pairwise_singleton ..
    · next data _ hdata =>
      obtain ⟨n, hn, rfl⟩ := Option.map_eq_some_iff.mp hdata
      refine List.pairwise_flatMap.mpr ⟨fun part _ => ih, ?_⟩
      rcases ht.ordered hn with hordered | ⟨e, type, rest, hassertion, htype, -⟩
      · have hparts := sublist_usedParts t scope ((scopeAt? id).getD scope) n.data
        rw [← Tree.children_of_node? hn] at hparts
        have hapart := List.pairwise_map.mp (((ht.nodup id).and hordered).sublist hparts)
        refine hapart.imp_of_mem fun {c d} hc hd h u hu v hv => ?_
        have hu' := below_of_mem_usesUpTo hu
        have hv' := below_of_mem_usesUpTo hv
        have hc' := hparts.subset (List.mem_map_of_mem hc)
        have hd' := hparts.subset (List.mem_map_of_mem hd)
        exact ⟨hu'.ne_of_siblings ht.branching hc' hd' h.1 hv', hu'.before ht hv' h.2⟩
      · -- The type comes first in the text, but there are no names in it.
        rw [hassertion]
        refine List.pairwise_pair.mpr fun u _ v hv => ?_
        rw [usesUpTo_of_isText htype] at hv
        cases hv

end Unchain.Binding
