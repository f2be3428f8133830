import Unchain.Chain.Successors
import Unchain.Naming.Handlers
import Unchain.Proofs.Chain.Stable

/-!
# Chains in layers

A chain whose links are `then` and `catch` with one handler each, or none, is a
leaf with layers around it. `Chained` says which leaf and which layers an
expression consists of; it is what a conversion sees of the chain, since the
receivers of such a chain are chained as well.
-/

namespace Unchain.Chain

open Binding (SymbolId Table)
open Naming (Key)
open Promise (Oracle)
open Syntax (Data Function NodeId NodeList Tree)
open Syntax.Tree (Evolves holds_some)

/-- A function that a link calls with a value or with a reason for rejection. -/
inductive Callback where
  /-- A function that is passed by its name. -/
  | named (name : NodeId)
  /-- An arrow whose body is an expression. The parameter is absent if there is
  none, or if nobody reads it. -/
  | arrow (function body : NodeId) (isAsync : Bool) (parameter : Option SymbolId)
  deriving DecidableEq, Repr

/-- What a link does with what its receiver comes to. -/
inductive Form where
  /-- It hands everything on. -/
  | pass
  /-- It calls a function with the value, and hands reasons on. -/
  | value (callback : Callback)
  /-- It calls a function with the reason, and hands values on. -/
  | reason (callback : Callback)
  deriving DecidableEq, Repr

/-- A link of a chain by its node. -/
structure Layer where
  link : NodeId
  form : Form
  deriving DecidableEq, Repr

section

variable (t : Tree) (o : Oracle) (b : Table)

/-- `handler` is the function `callback`. -/
inductive IsCallback : Handler → Callback → Prop
  | named (name : NodeId) : IsCallback (.named name) (.named name)
  | arrow {function body : NodeId} {f : Function} {parameter : Option SymbolId}
      (data : t.data? function = some (.function .arrow f)) (body_eq : f.body = some body)
      (plain : Naming.plainParameter? t b function = some parameter)
      (expression : t.statements? body = none) (noChain : isChain t o (some body) = false)
      (noGenerator : f.isGenerator = false) :
      IsCallback (.literal function) (.arrow function body f.isAsync parameter)

/-- A link with this callee is a layer of this form. -/
inductive HasForm : Link → NodeId → NodeId → Form → Prop
  | pass {callee receiver : NodeId} {onFulfilled onRejected : Option NodeId}
      (fulfilled : handlerOf t o onFulfilled = .absent)
      (rejected : handlerOf t o onRejected = .absent) :
      HasForm (.thenCall callee receiver onFulfilled onRejected) callee receiver .pass
  | value {callee receiver : NodeId} {onFulfilled onRejected : Option NodeId}
      {callback : Callback}
      (fulfilled : IsCallback t o b (handlerOf t o onFulfilled) callback)
      (rejected : handlerOf t o onRejected = .absent) :
      HasForm (.thenCall callee receiver onFulfilled onRejected) callee receiver
        (.value callback)
  | reason {callee receiver : NodeId} {onFulfilled onRejected : Option NodeId}
      {callback : Callback}
      (fulfilled : handlerOf t o onFulfilled = .absent)
      (rejected : IsCallback t o b (handlerOf t o onRejected) callback) :
      HasForm (.thenCall callee receiver onFulfilled onRejected) callee receiver
        (.reason callback)
  | catches {callee receiver onRejected : NodeId} {callback : Callback}
      (rejected : IsCallback t o b (handlerOf t o (some onRejected)) callback) :
      HasForm (.catchCall callee receiver onRejected) callee receiver (.reason callback)

/-- The expression `e` is a chain of these layers, the outermost first, around a
leaf. The method that a link calls is itself no promise. -/
inductive Chained : NodeId → NodeId → List Layer → Prop
  | leaf {e id : NodeId} (skip : t.skipParentheses (some e) = some id)
      (link : linkOf t o (some id) = .promise) : Chained e id []
  | layer {e id callee receiver leaf : NodeId} {form : Form} {layers : List Layer}
      (skip : t.skipParentheses (some e) = some id)
      (hasForm : HasForm t o b (linkOf t o (some id)) callee receiver form)
      (method : isPromise t o (some callee) = false)
      (rest : Chained receiver leaf layers) :
      Chained e leaf (⟨id, form⟩ :: layers)

end

/-! ### What a link is made of -/

/-- The node `id` is the call of a method of `receiver`. -/
def CallsMethod (t : Tree) (id callee receiver : NodeId) (arguments : List NodeId) : Prop :=
  ∃ outer types list name, t.data? id = some (.call .call outer types list) ∧
    Data.listNodes list = arguments ∧ t.skipParentheses outer = some callee ∧
      t.data? callee = some (.access .property (some receiver) name false)

section

variable {t : Tree} {o : Oracle}

/-- A call is a link if what it calls is, by its name, a method of a promise. -/
theorem methodLink?_eq_some_iff {outer : Option NodeId} {arguments : List NodeId} {link : Link} :
    methodLink? t o outer arguments = some link ↔ ∃ callee receiver name method,
      t.skipParentheses outer = some callee ∧
      t.data? callee = some (.access .property (some receiver) name false) ∧
      t.identifierText? name = some method ∧ Promise.Names.links.contains method = true ∧
      isPromise t o (some receiver) = true ∧
      linkOfMethod t callee receiver method arguments = link := by
  constructor
  · intro h
    unfold methodLink? at h
    split at h
    · next callee receiver name hskip hdata =>
      rw [hskip, Tree.partData?, Option.bind_some] at hdata
      obtain ⟨method, hmethod, h⟩ := Option.bind_eq_some_iff.mp h
      obtain ⟨receiver, rfl, h⟩ := Option.bind_eq_some_iff.mp h
      obtain ⟨hboth, h⟩ := Option.ite_none_right_eq_some.mp h
      obtain ⟨hname, hpromise⟩ := Bool.and_eq_true_iff.mp hboth
      exact ⟨callee, receiver, name, method, hskip, hdata, hmethod, hname, hpromise,
        Option.some.inj h⟩
    · exact absurd h (by simp)
  · rintro ⟨callee, receiver, name, method, hskip, hdata, hmethod, hname, hpromise, rfl⟩
    simp only [methodLink?, hskip, Tree.partData?, Option.bind_some, hdata, hmethod,
      Option.bind_eq_bind, hname, hpromise, Bool.and_self, if_true]

theorem callsMethod_of_methodLink? {id : NodeId} {outer types : Option NodeId}
    {list : Option NodeList} {link : Link} (hid : t.data? id = some (.call .call outer types list))
    (h : methodLink? t o outer (Data.listNodes list) = some link) :
    ∃ callee receiver method, CallsMethod t id callee receiver (Data.listNodes list) ∧
      link = linkOfMethod t callee receiver method (Data.listNodes list) := by
  obtain ⟨callee, receiver, name, method, hskip, hdata, -, -, -, rfl⟩ :=
    methodLink?_eq_some_iff.mp h
  exact ⟨callee, receiver, method, ⟨outer, types, list, name, hid, rfl, hskip, hdata⟩, rfl⟩

theorem not_isConvertible_plain (e : Option NodeId) :
    ¬ (if isPromise t o e = true then Link.promise else .other).isConvertible = true := by
  split <;> simp [Link.isConvertible]

/-- A `then` or `catch` is the call of a method. -/
theorem callsMethod_of_isConvertible {id : NodeId}
    (h : (linkOf t o (some id)).isConvertible = true) :
    ∃ callee receiver method arguments, CallsMethod t id callee receiver arguments ∧
      linkOf t o (some id) = linkOfMethod t callee receiver method arguments := by
  unfold linkOf at h ⊢
  rw [Tree.partData?, Option.bind_some] at h ⊢
  cases hdata : t.data? id with
  | none => exact absurd (hdata ▸ h) (not_isConvertible_plain _)
  | some data =>
      rw [hdata] at h
      cases data with
      | call kind outer types list =>
          cases kind with
          | new => exact absurd h (not_isConvertible_plain _)
          | call =>
              cases hm : methodLink? t o outer (Data.listNodes list) with
              | none =>
                  simp only [hm, Option.getD_none] at h
                  exact absurd h (not_isConvertible_plain _)
              | some link =>
                  obtain ⟨callee, receiver, method, hcalls, rfl⟩ :=
                    callsMethod_of_methodLink? hdata hm
                  exact ⟨callee, receiver, method, _, hcalls, by simp only [hm, Option.getD_some]⟩
      | access kind receiver name question =>
          cases kind with
          | element => exact absurd h (not_isConvertible_plain _)
          | property =>
              simp only [] at h
              split at h <;> exact absurd h (by simp [Link.isConvertible])
      | _ => exact absurd h (not_isConvertible_plain _)

theorem linkOfMethod_eq_thenCall {c r callee receiver : NodeId} {method : String}
    {arguments : List NodeId} {onFulfilled onRejected : Option NodeId}
    (h : linkOfMethod t c r method arguments = .thenCall callee receiver onFulfilled onRejected) :
    c = callee ∧ r = receiver ∧ (∀ x, onFulfilled = some x → x ∈ arguments) ∧
      ∀ x, onRejected = some x → x ∈ arguments := by
  unfold linkOfMethod at h
  simp only [] at h
  split at h
  · exact absurd h (by simp)
  · split at h <;> cases h <;> simp

theorem linkOfMethod_eq_catchCall {c r callee receiver onRejected : NodeId} {method : String}
    {arguments : List NodeId}
    (h : linkOfMethod t c r method arguments = .catchCall callee receiver onRejected) :
    c = callee ∧ r = receiver ∧ onRejected ∈ arguments := by
  unfold linkOfMethod at h
  simp only [] at h
  split at h
  · exact absurd h (by simp)
  · split at h <;> cases h
    simp

theorem callsMethod_of_thenCall {id callee receiver : NodeId}
    {onFulfilled onRejected : Option NodeId}
    (h : linkOf t o (some id) = .thenCall callee receiver onFulfilled onRejected) :
    ∃ arguments, CallsMethod t id callee receiver arguments ∧
      (∀ x, onFulfilled = some x → x ∈ arguments) ∧ ∀ x, onRejected = some x → x ∈ arguments := by
  have hconvertible : (linkOf t o (some id)).isConvertible = true := by
    rw [h]
    rfl
  obtain ⟨c, r, method, arguments, hcalls, heq⟩ := callsMethod_of_isConvertible hconvertible
  obtain ⟨rfl, rfl, hf, hr⟩ := linkOfMethod_eq_thenCall (heq.symm.trans h)
  exact ⟨arguments, hcalls, hf, hr⟩

theorem callsMethod_of_catchCall {id callee receiver onRejected : NodeId}
    (h : linkOf t o (some id) = .catchCall callee receiver onRejected) :
    ∃ arguments, CallsMethod t id callee receiver arguments ∧ onRejected ∈ arguments := by
  have hconvertible : (linkOf t o (some id)).isConvertible = true := by
    rw [h]
    rfl
  obtain ⟨c, r, method, arguments, hcalls, heq⟩ := callsMethod_of_isConvertible hconvertible
  obtain ⟨rfl, rfl, hr⟩ := linkOfMethod_eq_catchCall (heq.symm.trans h)
  exact ⟨arguments, hcalls, hr⟩

end

namespace CallsMethod

variable {t : Tree} {o : Oracle} {id callee receiver : NodeId} {arguments : List NodeId}

theorem skip (h : CallsMethod t id callee receiver arguments) :
    t.skipParentheses (some callee) = some callee := by
  obtain ⟨outer, types, list, name, -, -, -, hcallee⟩ := h
  refine Tree.skipParentheses_of_ne fun e he => ?_
  rw [hcallee] at he
  cases he

/-- The access between a link and its receiver leads to the receiver. -/
theorem linkOf_callee (h : CallsMethod t id callee receiver arguments)
    (hmethod : isPromise t o (some callee) = false) :
    linkOf t o (some callee) = .member (some receiver) := by
  obtain ⟨outer, types, list, name, -, -, -, hcallee⟩ := h
  simp [linkOf, Tree.partData?, hcallee, hmethod]

theorem lt_size (h : CallsMethod t id callee receiver arguments) : id < t.size := by
  obtain ⟨outer, types, list, name, hid, -⟩ := h
  exact Tree.lt_size_of_data? hid

theorem callee_lt_size (h : CallsMethod t id callee receiver arguments) : callee < t.size := by
  obtain ⟨outer, types, list, name, -, -, -, hcallee⟩ := h
  exact Tree.lt_size_of_data? hcallee

theorem receiver_lt_size (h : CallsMethod t id callee receiver arguments) (ht : t.Closed) :
    receiver < t.size := by
  obtain ⟨outer, types, list, name, -, -, -, hcallee⟩ := h
  exact ht.child_lt hcallee (by simp [Data.children])

theorem argument_lt_size (h : CallsMethod t id callee receiver arguments) (ht : t.Closed)
    {x : NodeId} (hx : x ∈ arguments) : x < t.size := by
  obtain ⟨outer, types, list, name, hid, rfl, -⟩ := h
  exact ht.child_lt hid (List.mem_append_right _ hx)

end CallsMethod

/-! ### Bindings and nodes of a chain -/

namespace Callback

/-- The node that stands for the function. -/
def node : Callback → NodeId
  | named name => name
  | arrow function .. => function

/-- The binding that the function reads a value from. -/
def valueKey? : Callback → Option Key
  | named name => some (.minted name)
  | arrow _ _ _ parameter => parameter.map .parameter

/-- The binding that the function reads a reason from. -/
def reasonKey : Callback → Key
  | named name => .minted name
  | arrow function _ _ parameter => (parameter.map .parameter).getD (.minted function)

/-- A function that reads its argument reads a value and a reason from the same binding. -/
theorem reasonKey_of_valueKey? {callback : Callback} {key : Key}
    (h : callback.valueKey? = some key) : callback.reasonKey = key := by
  cases callback with
  | named name => exact Option.some.inj h
  | arrow function body isAsync parameter =>
      cases parameter with
      | none => cases h
      | some symbol => exact Option.some.inj h

end Callback

/-- The binding that a link's function reads its argument from. -/
def Form.key? : Form → Option Key
  | pass => none
  | value callback => callback.valueKey?
  | reason callback => some callback.reasonKey

/-- The function of a link. -/
def Form.callback? : Form → Option Callback
  | pass => none
  | value callback | reason callback => some callback

/-- Whether a link does something with a value. -/
def Form.consumes : Form → Bool
  | value _ => true
  | _ => false

/-- The bindings of a chain. -/
def keysOf (layers : List Layer) : List Key := layers.filterMap (·.form.key?)

theorem keysOf_cons (layer : Layer) (layers : List Layer) :
    keysOf (layer :: layers) = layer.form.key?.toList ++ keysOf layers := by
  cases h : layer.form.key? with
  | none => simp [keysOf, h]
  | some key => simp [keysOf, h]

section

variable {t : Tree} {o : Oracle} {b : Table} {handler : Handler} {callback : Callback}

theorem IsCallback.valueKey? (h : IsCallback t o b handler callback) :
    Naming.valueKey? t b handler = some callback.valueKey? := by
  cases h with
  | named name => rfl
  | arrow data body_eq plain => rw [Naming.valueKey?, plain]; rfl

theorem IsCallback.reasonKey? (h : IsCallback t o b handler callback) :
    Naming.reasonKey? t b handler = some callback.reasonKey := by
  cases h with
  | named name => rfl
  | arrow data body_eq plain => rw [Naming.reasonKey?, plain]; rfl

theorem IsCallback.ne_absent (h : IsCallback t o b handler callback) : handler ≠ .absent := by
  cases h <;> nofun

theorem IsCallback.of_named {name : NodeId} (h : IsCallback t o b handler (.named name)) :
    handler = .named name := by
  cases h
  rfl

/-- What is known about an arrow. -/
theorem IsCallback.of_arrow {function body : NodeId} {isAsync : Bool}
    {parameter : Option SymbolId}
    (h : IsCallback t o b handler (.arrow function body isAsync parameter)) :
    handler = .literal function ∧ isChain t o (some body) = false ∧
      t.statements? body = none ∧ ∃ f : Function, t.data? function = some (.function .arrow f) ∧
        f.body = some body ∧ f.isAsync = isAsync ∧ f.isGenerator = false := by
  generalize hc : Callback.arrow function body isAsync parameter = callback at h
  cases h with
  | named name => cases hc
  | @arrow _ _ f _ data body_eq plain expression noChain noGenerator =>
      cases hc
      exact ⟨rfl, noChain, expression, f, data, body_eq, rfl, noGenerator⟩

theorem IsCallback.function_lt {function body : NodeId} {isAsync : Bool}
    {parameter : Option SymbolId}
    (h : IsCallback t o b handler (.arrow function body isAsync parameter)) :
    function < t.size := by
  obtain ⟨-, -, -, f, data, -⟩ := h.of_arrow
  exact Tree.lt_size_of_data? data

theorem IsCallback.body_lt {function body : NodeId} {isAsync : Bool}
    {parameter : Option SymbolId}
    (h : IsCallback t o b handler (.arrow function body isAsync parameter)) (ht : t.Closed) :
    body < t.size := by
  obtain ⟨-, -, -, f, data, hbody, -⟩ := h.of_arrow
  exact ht.child_lt data (by simp [Data.children, hbody])

/-- A function that is written in place stays what it is. -/
theorem IsCallback.evolves {t' : Tree} (h : IsCallback t o b handler callback)
    (hgrow : Evolves t t') (ht : t.Closed) : IsCallback t' o b handler callback := by
  cases h with
  | named name => exact .named name
  | @arrow function body f parameter data body_eq plain expression noChain noGenerator =>
      have hfunction : function < t.size := Tree.lt_size_of_data? data
      have hbody : body < t.size := ht.child_lt data (by simp [Data.children, body_eq])
      refine .arrow (hgrow.data? data (by simp)) body_eq ?_ ?_ ?_ noGenerator
      · rw [Naming.plainParameter?_evolves hgrow ht b hfunction, plain]
      · rw [hgrow.statements? hbody, expression]
      · rw [isChain_evolves hgrow ht o (holds_some.mpr hbody), noChain]

theorem HasForm.callsMethod {link : Link} {id callee receiver : NodeId} {form : Form}
    (h : HasForm t o b link callee receiver form) (hlink : linkOf t o (some id) = link) :
    ∃ arguments, CallsMethod t id callee receiver arguments := by
  cases h with
  | pass | value | reason =>
      obtain ⟨arguments, hcalls, -⟩ := callsMethod_of_thenCall hlink
      exact ⟨arguments, hcalls⟩
  | catches =>
      obtain ⟨arguments, hcalls, -⟩ := callsMethod_of_catchCall hlink
      exact ⟨arguments, hcalls⟩

theorem HasForm.of_value {link : Link} {callee receiver : NodeId}
    (h : HasForm t o b link callee receiver (.value callback)) :
    IsCallback t o b (handlerOf t o link.handlers.1) callback := by
  cases h with
  | value fulfilled => exact fulfilled

theorem HasForm.of_reason {link : Link} {callee receiver : NodeId}
    (h : HasForm t o b link callee receiver (.reason callback)) :
    IsCallback t o b (handlerOf t o link.handlers.2) callback := by
  cases h with
  | reason _ rejected | catches rejected => exact rejected

theorem HasForm.holds_handlers {link : Link} {id callee receiver : NodeId} {form : Form}
    (h : HasForm t o b link callee receiver form) (hlink : linkOf t o (some id) = link)
    (ht : t.Closed) : t.Holds link.handlers.1 ∧ t.Holds link.handlers.2 := by
  cases h with
  | pass | value | reason =>
      obtain ⟨arguments, hcalls, hf, hr⟩ := callsMethod_of_thenCall hlink
      exact ⟨fun x hx => hcalls.argument_lt_size ht (hf x hx),
        fun x hx => hcalls.argument_lt_size ht (hr x hx)⟩
  | catches =>
      obtain ⟨arguments, hcalls, hr⟩ := callsMethod_of_catchCall hlink
      exact ⟨Tree.holds_none t, holds_some.mpr (hcalls.argument_lt_size ht hr)⟩

/-- The handlers of a link stay what they are. -/
theorem HasForm.handlers_evolves {t' : Tree} {link : Link} {id callee receiver : NodeId}
    {form : Form} (h : HasForm t o b link callee receiver form)
    (hlink : linkOf t o (some id) = link) (hgrow : Evolves t t') (ht : t.Closed) :
    handlerOf t' o link.handlers.1 = handlerOf t o link.handlers.1 ∧
      handlerOf t' o link.handlers.2 = handlerOf t o link.handlers.2 := by
  have hheld := h.holds_handlers hlink ht
  exact ⟨handlerOf_evolves hgrow ht o hheld.1, handlerOf_evolves hgrow ht o hheld.2⟩

/-- A link stays a layer of its form. -/
theorem HasForm.evolves {t' : Tree} {link : Link} {id callee receiver : NodeId} {form : Form}
    (h : HasForm t o b link callee receiver form) (hlink : linkOf t o (some id) = link)
    (hgrow : Evolves t t') (ht : t.Closed) :
    HasForm t' o b link callee receiver form := by
  obtain ⟨hf, hr⟩ := h.handlers_evolves hlink hgrow ht
  cases h with
  | pass fulfilled rejected => exact .pass (hf.trans fulfilled) (hr.trans rejected)
  | value fulfilled rejected =>
      refine .value ?_ (hr.trans rejected)
      simp only [Link.handlers] at hf
      rw [hf]
      exact fulfilled.evolves hgrow ht
  | reason fulfilled rejected =>
      refine .reason (hf.trans fulfilled) ?_
      simp only [Link.handlers] at hr
      rw [hr]
      exact rejected.evolves hgrow ht
  | catches rejected =>
      refine .catches ?_
      simp only [Link.handlers] at hr
      rw [hr]
      exact rejected.evolves hgrow ht

end

end Unchain.Chain
