import Unchain.Proofs.Chain.Copies
import Unchain.Proofs.Chain.Runs
import Unchain.Proofs.Scoping.SourceFile

/-!
# Which roots a function has

`IsRoot` says of a statement by itself that it is a root: what it returns, or the
expression that it is, is a call of `then` or `catch` (`EndsInLink`), or it returns
a variable that the statement before gave such a value (`Defines`). Every such
statement of a function is found, once and in the order of the text
(`rootsOf_spec`): the tree of a text is calm, so no statement of the function stands
where the search does not look, and every root has a name, which starts before the
next root does.
-/

namespace Unchain.Chain

open Promise (Oracle)
open Syntax (Data NodeId NodeList Tree)
open Syntax.Tree (Below statements?_sublist)

/-! ### What a root is -/

section

variable (t : Tree) (o : Oracle)

/-- The node is `...e`. -/
def IsSpread (id : NodeId) : Prop := ∃ e, t.data? id = some (.unary .spread e)

/-- The node is a call of `then` or `catch` on a promise, with as many arguments as that takes. -/
inductive IsLink (id : NodeId) : Prop where
  | call {outer types : Option NodeId} {list : Option NodeList} {callee receiver : NodeId}
      {name : Option NodeId} {method : String}
      (hcall : t.data? id = some (.call .call outer types list))
      (hcallee : t.skipParentheses outer = some callee)
      (haccess : t.data? callee = some (.access .property (some receiver) name false))
      (hname : t.identifierText? name = some method)
      (hpromise : isPromise t o (some receiver) = true)
      (hmethod : method = "then" ∧ (Data.listNodes list).length ≤ 2 ∨
        method = "catch" ∧ (Data.listNodes list).length = 1)
      (hplain : ∀ argument ∈ Data.listNodes list, ¬ IsSpread t argument) : IsLink id

/-- The expression is a call of `then` or `catch`, with parentheses around it or not. -/
def EndsInLink (e : NodeId) : Prop := ∃ id, t.skipParentheses (some e) = some id ∧ IsLink t o id

/-- The statement gives a variable a value: it declares nothing else, or it is an assignment. -/
inductive Defines (statement target value : NodeId) : Prop where
  | declared {declaration : NodeId} {modifiers : Option NodeList} {list : NodeList}
      {isDefinite : Bool} {type : Option NodeId}
      (hstatement : t.data? statement = some (.variableList .statement modifiers list))
      (hlist : list.nodes = [declaration])
      (hdeclaration : t.data? declaration =
        some (.variableDeclaration (some target) isDefinite type (some value)))
      (hname : t.isIdentifier target = true) : Defines statement target value
  | assigned {assignment : NodeId} {e left : Option NodeId}
      (hstatement : t.data? statement = some (.expressionStatement .statement e))
      (hskip : t.skipParentheses e = some assignment)
      (hassignment : t.data? assignment = some (.binary left .equals (some value)))
      (htarget : t.skipParentheses left = some target)
      (hname : t.isIdentifier target = true) : Defines statement target value

/-- The node, the expression and the kind are those of a root. -/
inductive IsRoot : Root → Prop where
  | returned {s e : NodeId} (hs : t.data? s = some (.leave .returns (some e)))
      (hlink : EndsInLink t o e) : IsRoot ⟨s, e, .returned⟩
  | statement {s e : NodeId} (hs : t.data? s = some (.expressionStatement .statement (some e)))
      (hlink : EndsInLink t o e) : IsRoot ⟨s, e, .statement⟩
  | returnedVariable {s e previous target value : NodeId}
      (hs : t.data? s = some (.leave .returns (some e))) (hname : t.isIdentifier e = true)
      (hbefore : AreNeighbours t [previous, s]) (hdefines : Defines t previous target value)
      (hlink : EndsInLink t o value) (hbound : (o.symbolAt? e).isSome = true)
      (hsame : o.symbolAt? e = o.symbolAt? target) : IsRoot ⟨s, e, .returnedVariable⟩

end

variable {t : Tree} {o : Oracle}

/-! ### Links -/

/-- The method and its arguments decide what kind of link a call is. -/
theorem isConvertible_linkOfMethod_iff {callee receiver : NodeId} {method : String}
    {arguments : List NodeId} :
    (linkOfMethod t callee receiver method arguments).isConvertible = true ↔
      (method = "then" ∧ arguments.length ≤ 2 ∨ method = "catch" ∧ arguments.length = 1) ∧
        ∀ argument ∈ arguments, ¬ IsSpread t argument := by
  unfold linkOfMethod
  extract_lets isSpread
  have hspread (id : NodeId) : isSpread id = true ↔ IsSpread t id := by
    simp only [isSpread, IsSpread]
    split
    · next e hdata => simp [hdata]
    · next hno => simpa using fun e he => hno e he
  have hany : arguments.any isSpread = true ↔ ∃ a ∈ arguments, IsSpread t a := by
    simp [List.any_eq_true, hspread]
  clear_value isSpread
  split
  · next h =>
    obtain ⟨a, ha, hspreads⟩ := hany.mp h
    exact iff_of_false Bool.false_ne_true fun hplain => hplain.2 a ha hspreads
  · next h =>
    have hplain : ∀ a ∈ arguments, ¬ IsSpread t a := fun a ha hs => h (hany.mpr ⟨a, ha, hs⟩)
    rw [and_iff_left hplain]
    split
    iterate 5
      · simp [Link.isConvertible]
    · refine iff_of_false Bool.false_ne_true ?_
      rintro (⟨rfl, hlength⟩ | ⟨rfl, hlength⟩)
      · rcases arguments with - | ⟨a, - | ⟨b, - | ⟨c, arguments⟩⟩⟩ <;> simp_all
      · obtain ⟨a, rfl⟩ := List.length_eq_one_iff.mp hlength
        simp_all

theorem isConvertible_linkOf_iff {id : NodeId} :
    (linkOf t o (some id)).isConvertible = true ↔ IsLink t o id := by
  constructor
  · intro h
    obtain ⟨_, _, _, _, ⟨outer, types, list, _, hcall, -⟩, -⟩ := callsMethod_of_isConvertible h
    have hreceiver : (linkOf t o (some id)).receiver?.isSome = true := by
      cases hlink : linkOf t o (some id) <;> simp_all [Link.isConvertible, Link.receiver?]
    obtain ⟨callee, receiver, name, method, hcallee, haccess, hname, -, hpromise, hlink⟩ :=
      methodLink?_eq_some_iff.mp (methodLink?_of_receiver? hcall hreceiver)
    rw [← hlink] at h
    obtain ⟨hmethod, hplain⟩ := isConvertible_linkOfMethod_iff.mp h
    exact .call hcall hcallee haccess hname hpromise hmethod hplain
  · rintro @⟨outer, _, list, callee, receiver, name, method, hcall, hcallee, haccess, hname,
      hpromise, hmethod, hplain⟩
    have hlinks : Promise.Names.links.contains method = true := by
      rcases hmethod with ⟨rfl, -⟩ | ⟨rfl, -⟩ <;> rfl
    have hlink : methodLink? t o outer (Data.listNodes list) = some (linkOfMethod t callee receiver
        method (Data.listNodes list)) :=
      methodLink?_eq_some_iff.mpr
        ⟨callee, receiver, name, method, hcallee, haccess, hname, hlinks, hpromise, rfl⟩
    rw [linkOf_call hcall hlink]
    exact isConvertible_linkOfMethod_iff.mpr ⟨hmethod, hplain⟩

theorem isChain_iff {e : NodeId} : isChain t o (some e) = true ↔ EndsInLink t o e := by
  unfold isChain EndsInLink
  cases hskip : t.skipParentheses (some e) with
  | none => exact iff_of_false (not_isConvertible_plain (t := t) (o := o) none) (by simp)
  | some id => simp [isConvertible_linkOf_iff]

/-- What has the text of a name is one. -/
theorem exists_name_of_identifierText? {name : Option NodeId} {word : String}
    (h : t.identifierText? name = some word) :
    ∃ id n, name = some id ∧ t.node? id = some n ∧ n.data.isName = true := by
  have hpart {data : Data} (hdata : t.partData? name = some data) (hname : data.isName = true) :
      ∃ id n, name = some id ∧ t.node? id = some n ∧ n.data.isName = true := by
    obtain ⟨id, rfl, hdata⟩ := Option.bind_eq_some_iff.mp hdata
    obtain ⟨n, hn, rfl⟩ := Option.map_eq_some_iff.mp hdata
    exact ⟨id, n, rfl, hn, hname⟩
  unfold Tree.identifierText? at h
  split at h
  · next hdata => exact hpart hdata rfl
  · next hdata => exact hpart hdata rfl
  · cases h

/-- The name of its method stands in a link. -/
theorem EndsInLink.hasName {e : NodeId} (h : EndsInLink t o e) : t.HasName e := by
  obtain ⟨id, hskip, hlink⟩ := h
  obtain @⟨outer, _, _, callee, _, name, _, hcall, hcallee, haccess, hname, -⟩ := hlink
  obtain ⟨outer, rfl⟩ : ∃ node, outer = some node := by
    cases outer with
    | none => rw [Tree.skipParentheses_none] at hcallee; cases hcallee
    | some node => exact ⟨node, rfl⟩
  obtain ⟨name, n, rfl, hn, hisName⟩ := exists_name_of_identifierText? hname
  have houter : t.Below e outer :=
    (continues_skipParentheses hskip).is_below.trans (.of_data? hcall (by simp [Data.children]))
  have hmember : t.Below e callee := houter.trans (continues_skipParentheses hcallee).is_below
  exact ⟨name, n, hmember.trans (.of_data? haccess (by simp [Data.children])), hn, hisName⟩

/-! ### Definitions -/

theorem definition?_iff {statement target value : NodeId} :
    (∃ declares, definition? t statement = some ⟨target, value, declares⟩) ↔
      Defines t statement target value := by
  constructor
  · rintro ⟨declares, h⟩
    unfold definition? at h
    dsimp only at h
    split at h
    · next modifiers declaration pos stop comma hstatement =>
      split at h
      · next name definite type initializer hdeclaration =>
        obtain ⟨target, rfl, hvalue⟩ := Option.bind_eq_some_iff.mp h
        obtain ⟨value, rfl, hsome⟩ := Option.bind_eq_some_iff.mp hvalue
        obtain ⟨hname, heq⟩ := Option.ite_none_right_eq_some.mp hsome
        cases heq
        exact .declared hstatement rfl hdeclaration hname
      · cases h
    · next e hstatement =>
      split at h
      · next left right hassignment =>
        obtain ⟨target, htarget, hvalue⟩ := Option.bind_eq_some_iff.mp h
        obtain ⟨value, rfl, hsome⟩ := Option.bind_eq_some_iff.mp hvalue
        obtain ⟨hname, heq⟩ := Option.ite_none_right_eq_some.mp hsome
        cases heq
        obtain ⟨assignment, hskip, hassignment⟩ := Option.bind_eq_some_iff.mp hassignment
        exact .assigned hstatement hskip hassignment htarget hname
      · cases h
    · cases h
  · rintro (⟨hstatement, hlist, hdeclaration, hname⟩ |
      ⟨hstatement, hskip, hassignment, htarget, hname⟩)
    · next list _ _ =>
      obtain ⟨nodes, pos, stop, comma⟩ := list
      obtain rfl : nodes = _ := hlist
      exact ⟨true, by simp [definition?, hstatement, hdeclaration, hname]⟩
    · exact ⟨false, by simp [definition?, hstatement, hskip, Tree.partData?, hassignment, htarget,
        hname]⟩

section Neighbours

variable {nodes before after : List NodeId} {previous statement : NodeId} {i : Nat}

theorem pair_infix_of_lt (h : i + 1 < nodes.length) : [nodes[i], nodes[i + 1]] <:+: nodes := by
  refine ⟨nodes.take i, nodes.drop (i + 2), ?_⟩
  rw [List.append_assoc, List.cons_append, List.cons_append, List.nil_append,
    List.getElem_cons_drop, List.getElem_cons_drop, List.take_append_drop]

/-- Where the second of two neighbours stands, if nothing stands in the list twice. -/
theorem idxOf_of_nodup (h : (before ++ previous :: statement :: after).Nodup) :
    (before ++ previous :: statement :: after).idxOf statement = before.length + 1 := by
  obtain ⟨-, hafter, hdisjoint⟩ := List.nodup_append.mp h
  have hbefore : statement ∉ before := fun hmem => hdisjoint _ hmem _ (by simp) rfl
  have hne : previous ≠ statement := by
    rintro rfl
    simp at hafter
  rw [List.idxOf_append_of_notMem hbefore]
  simp [hne]

/-- What stands before a statement is its neighbour. -/
theorem statementBefore?_iff (ht : t.Branching) :
    statementBefore? t statement = some previous ↔ AreNeighbours t [previous, statement] := by
  constructor
  · intro h
    unfold statementBefore? at h
    obtain ⟨parent, -, h⟩ := Option.bind_eq_some_iff.mp h
    obtain ⟨list, hlist, h⟩ := Option.bind_eq_some_iff.mp h
    refine ⟨parent, list, hlist, ?_⟩
    split at h
    · cases h
    · next i hi =>
      obtain ⟨hlt, hprevious⟩ := Option.ite_none_right_eq_some.mp h
      have hstatement : list.nodes[i + 1] = statement := by
        have hindex : list.nodes.idxOf statement < list.nodes.length := by omega
        simpa only [hi] using List.getElem_idxOf hindex
      obtain ⟨hi', rfl⟩ := List.getElem?_eq_some_iff.mp hprevious
      rw [← hstatement]
      exact pair_infix_of_lt hlt
  · rintro ⟨parent, list, hlist, before, after, hnodes⟩
    rw [List.append_assoc, List.cons_append, List.cons_append, List.nil_append] at hnodes
    have hmem : statement ∈ list.nodes := hnodes ▸ by simp
    have hparent := ht.parent ((statements?_sublist hlist).subset hmem)
    have hnodup := (ht.nodup parent).sublist (statements?_sublist hlist)
    have hindex := idxOf_of_nodup (hnodes ▸ hnodup)
    simp [statementBefore?, hparent, hlist, ← hnodes, hindex]

end Neighbours

/-! ### Roots -/

theorem returnsChainVariable_iff (ht : t.Branching) {statement e : NodeId} :
    returnsChainVariable t o statement e = true ↔ t.isIdentifier e = true ∧
      ∃ previous target value, AreNeighbours t [previous, statement] ∧
        Defines t previous target value ∧ EndsInLink t o value ∧
        (o.symbolAt? e).isSome = true ∧ o.symbolAt? e = o.symbolAt? target := by
  rw [returnsChainVariable, Bool.and_eq_true, Option.any_eq_true]
  refine and_congr_right fun _ => ⟨?_, ?_⟩
  · rintro ⟨⟨target, value, declares⟩, hdefinition, hall⟩
    obtain ⟨previous, hbefore, hdefinition⟩ := Option.bind_eq_some_iff.mp hdefinition
    simp only [Bool.and_eq_true, beq_iff_eq] at hall
    obtain ⟨⟨hbound, hsame⟩, hchain⟩ := hall
    exact ⟨previous, target, value, (statementBefore?_iff ht).mp hbefore,
      definition?_iff.mp ⟨declares, hdefinition⟩, isChain_iff.mp hchain, hbound, hsame⟩
  · rintro ⟨previous, target, value, hbefore, hdefines, hlink, hbound, hsame⟩
    obtain ⟨declares, hdefinition⟩ := definition?_iff.mpr hdefines
    refine ⟨⟨target, value, declares⟩, ?_, ?_⟩
    · rw [(statementBefore?_iff ht).mpr hbefore, Option.bind_some, hdefinition]
    · rw [hbound, isChain_iff.mpr hlink, hsame]
      simp

/-- A name is no call. -/
theorem not_endsInLink_of_isIdentifier {e : NodeId} (h : t.isIdentifier e = true) :
    ¬ EndsInLink t o e := by
  rintro ⟨id, hskip, hlink⟩
  obtain ⟨data, hdata, hname⟩ := Option.any_eq_true _ _ |>.mp h
  -- There are no parentheses around a name, so the call would be the name itself.
  rw [Tree.skipParentheses_of_ne fun part hpart => ?_] at hskip
  · obtain rfl := Option.some.inj hskip
    obtain ⟨hcall⟩ := hlink
    obtain rfl := Option.some.inj (hdata.symm.trans hcall)
    cases hname
  · obtain rfl := Option.some.inj (hdata.symm.trans hpart)
    cases hname

theorem rootOf?_iff (ht : t.Branching) {statement : NodeId} {root : Root} :
    rootOf? t o statement = some root ↔ root.node = statement ∧ IsRoot t o root := by
  constructor
  · intro h
    refine ⟨node_of_rootOf? h, ?_⟩
    unfold rootOf? at h
    split at h
    · next e hs =>
      split at h
      · next hchain =>
        cases h
        exact .returned hs (isChain_iff.mp hchain)
      · obtain ⟨hreturns, h⟩ := Option.ite_none_right_eq_some.mp h
        cases h
        obtain ⟨hname, previous, target, value, hbefore, hdefines, hlink, hbound, hsame⟩ :=
          (returnsChainVariable_iff ht).mp hreturns
        exact .returnedVariable hs hname hbefore hdefines hlink hbound hsame
    · next e hs =>
      obtain ⟨hchain, h⟩ := Option.ite_none_right_eq_some.mp h
      cases h
      exact .statement hs (isChain_iff.mp hchain)
    · cases h
  · rintro ⟨rfl, hroot⟩
    cases hroot with
    | returned hs hlink => simp [rootOf?, hs, isChain_iff.mpr hlink]
    | statement hs hlink => simp [rootOf?, hs, isChain_iff.mpr hlink]
    | returnedVariable hs hname hbefore hdefines hlink hbound hsame =>
      -- The value that is returned is asked first whether it is a chain.
      have hno := isChain_iff.not.mpr (not_endsInLink_of_isIdentifier (o := o) hname)
      have hreturns := (returnsChainVariable_iff ht).mpr
        ⟨hname, _, _, _, hbefore, hdefines, hlink, hbound, hsame⟩
      simp [rootOf?, hs, hno, hreturns]

/-- A root is a statement that holds no other one. -/
theorem IsRoot.exists_rootLike {root : Root} (h : IsRoot t o root) :
    ∃ data, t.data? root.node = some data ∧ isRootLike data = true := by
  cases h with
  | returned hs => exact ⟨_, hs, rfl⟩
  | statement hs => exact ⟨_, hs, rfl⟩
  | returnedVariable hs => exact ⟨_, hs, rfl⟩

theorem IsRoot.not_quiet {root : Root} (h : IsRoot t o root) : ¬ t.Quiet root.node := by
  rintro ⟨data, hdata, hquiet⟩
  obtain ⟨data', hdata', hlike⟩ := h.exists_rootLike
  obtain rfl := Option.some.inj (hdata.symm.trans hdata')
  cases data with
  | leave | expressionStatement => cases hquiet
  | _ => cases hlike

/-- There is a name in every root. -/
theorem IsRoot.hasName {root : Root} (h : IsRoot t o root) : t.HasName root.node := by
  have hbelow {s e : NodeId} {data : Data} (hs : t.data? s = some data) (he : e ∈ data.children)
      (hname : t.HasName e) : t.HasName s := by
    obtain ⟨x, n, hx, hn, hisName⟩ := hname
    exact ⟨x, n, (Below.of_data? hs he).trans hx, hn, hisName⟩
  cases h with
  | returned hs hlink => exact hbelow hs (by simp [Data.children]) hlink.hasName
  | statement hs hlink => exact hbelow hs (by simp [Data.children]) hlink.hasName
  | @returnedVariable _ e _ _ _ hs hname =>
    obtain ⟨data, hdata, hname⟩ := Option.any_eq_true _ _ |>.mp hname
    obtain ⟨n, hn, rfl⟩ := Option.map_eq_some_iff.mp hdata
    have hisName : n.data.isName = true := by
      cases hd : n.data <;> simp_all [Data.isIdentifier, Data.isName]
    exact hbelow hs (by simp [Data.children]) ⟨e, n, .refl, hn, hisName⟩

/-! ### The roots of a function -/

/-- The search goes below a node unless all that stands there is quiet. -/
theorem children_subset_of_isRootLike {data : Data} (h : (!isRootLike data) = false) :
    data.children ⊆ data.quietParts := by
  unfold isRootLike at h
  split at h
  · exact fun _ hc => hc
  · exact fun _ hc => hc
  · cases h

theorem rootsOf_of_block {function body : NodeId} {list : NodeList} {multiLine : Bool}
    (hbody : bodyOf? t function = some body)
    (hblock : t.data? body = some (.block .block list multiLine)) :
    rootsOf t o function =
      (t.scopeNodes (fun node => !isRootLike node.data) body).filterMap (rootOf? t o) := by
  simp only [rootsOf, hbody, hblock]

section

variable (ht : t.Branching) (hcalm : t.Calm) {function body : NodeId} {list : NodeList}
  {multiLine : Bool} (hbody : bodyOf? t function = some body)
  (hblock : t.data? body = some (.block .block list multiLine))
include ht hcalm hbody hblock

/-- The roots of a function are the roots among its own statements. -/
theorem mem_rootsOf_iff {root : Root} :
    root ∈ rootsOf t o function ↔ IsRoot t o root ∧ t.Owned function root.node := by
  rw [rootsOf_of_block hbody hblock, List.mem_filterMap]
  constructor
  · rintro ⟨statement, hmem, hfound⟩
    obtain ⟨rfl, hroot⟩ := (rootOf?_iff ht).mp hfound
    have hmeets := Tree.mem_scopeNodes_iff.mp hmem
    have howned := hmeets.owned (by simp [Tree.isFunction, hblock, Data.isFunction])
      (by simp [Tree.isClass, hblock, Data.isClass]) (.child (mem_children_of_bodyOf? hbody))
    exact ⟨hroot, howned⟩
  · rintro ⟨hroot, howned⟩
    refine ⟨root.node, Tree.mem_scopeNodes_iff.mpr ?_, (rootOf?_iff ht).mpr ⟨rfl, hroot⟩⟩
    obtain ⟨k, parts, hfunction, hparts⟩ := bodyOf?_eq_some_iff.mp hbody
    exact howned.meets hcalm hfunction hparts (fun _ h => children_subset_of_isRootLike h)
      hroot.not_quiet

/-- The roots of a function come in the order of the text. -/
theorem pairwise_startsBefore_rootsOf :
    (rootsOf t o function).Pairwise fun root root' => t.StartsBefore root.node root'.node := by
  rw [rootsOf_of_block hbody hblock]
  have hnodes : (t.scopeNodes (fun node => !isRootLike node.data) body).Pairwise fun x y =>
      (∃ root, root.node = x ∧ IsRoot t o root) → (∃ root, root.node = y ∧ IsRoot t o root) →
        t.StartsBefore x y := by
    refine hcalm.pairwise_scopeNodes (by simp [Tree.isFunction, hblock, Data.isFunction]) ?_ ?_ ?_
    · rintro x ⟨root, rfl, hroot⟩
      exact hroot.not_quiet
    · rintro x ⟨root, rfl, hroot⟩
      exact hroot.hasName
    · rintro x n hn ⟨root, rfl, hroot⟩
      obtain ⟨data, hdata, hlike⟩ := hroot.exists_rootLike
      obtain rfl := Option.some.inj ((Tree.data?_of_node? hn).symm.trans hdata)
      rw [hlike]
      rfl
  refine hnodes.filterMap _ fun x y hxy root hfound root' hfound' => ?_
  obtain ⟨rfl, hroot⟩ := (rootOf?_iff ht).mp hfound
  obtain ⟨rfl, hroot'⟩ := (rootOf?_iff ht).mp hfound'
  exact hxy ⟨root, rfl, hroot⟩ ⟨root', rfl, hroot'⟩

end

/-- In a text, with errors or without them, the roots of a function with a block are all its own
statements that are roots by themselves, each once, in the order in which they start. -/
theorem rootsOf_spec (fileName source : String) (o : Oracle) {function body : NodeId}
    {list : NodeList} {multiLine : Bool} :
    let t := (SourceTree.ofSource fileName source).tree
    bodyOf? t function = some body → t.data? body = some (.block .block list multiLine) →
      (rootsOf t o function).Pairwise (fun root root' => t.StartsBefore root.node root'.node) ∧
      ((rootsOf t o function).map Root.node).Nodup ∧
      ∀ root, root ∈ rootsOf t o function ↔ IsRoot t o root ∧ t.Owned function root.node := by
  intro t hbody hblock
  obtain ⟨-, hbranching, -⟩ := SourceTree.ofSource_branching fileName source
  have hcalm := SourceTree.ofSource_calm fileName source
  refine ⟨pairwise_startsBefore_rootsOf hbranching hcalm hbody hblock, ?_, fun root =>
    mem_rootsOf_iff hbranching hcalm hbody hblock⟩
  exact List.pairwise_map.mpr (pairwise_rootsOf hbranching function)

/-- A function with a root of each kind, one of them in a block of its own. The call in the arrow is
a root of the arrow. -/
theorem rootsOf_spec_kinds :
    let source :=
      "function f(p:Promise<A>){p.then();{let v=p.then();return v}()=>{p.then()};return(p.then())}"
    let t := (SourceTree.ofSource "a.ts" source).tree
    let o := Oracle.ofFile (SourceFile.ofSource "a.ts" source) {}
    rootsOf t o 34 = [⟨8, 7, .statement⟩, ⟨17, 16, .returnedVariable⟩, ⟨32, 31, .returned⟩] ∧
      (rootsOf t o 34).Pairwise (fun root root' => t.StartsBefore root.node root'.node) ∧
      ((rootsOf t o 34).map Root.node).Nodup ∧
      ∀ root, root ∈ rootsOf t o 34 ↔ IsRoot t o root ∧ t.Owned 34 root.node := by
  intro source t o
  have hbody : bodyOf? t 34 = some 33 := by decide +kernel
  have hblock : t.data? 33 = some (.block .block ⟨[8, 18, 26, 32], 25, 90, false⟩ false) := by
    decide +kernel
  have hroots : rootsOf t o 34 =
      [⟨8, 7, .statement⟩, ⟨17, 16, .returnedVariable⟩, ⟨32, 31, .returned⟩] := by
    decide +kernel
  exact ⟨hroots, rootsOf_spec "a.ts" source o hbody hblock⟩

end Unchain.Chain
