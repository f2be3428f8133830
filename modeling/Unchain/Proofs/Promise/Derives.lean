import Unchain.Promise.Oracle

/-!
# What gives a promise

The rules by which an expression, or a call of something, gives a promise, without regard to any
search. `Derives` is the least set of findings that is closed under them: declarations that refer
to each other in a circle, and to nothing else, give no promise.

`derives_of_answer` says that one step of the oracle concludes nothing but what the rules do, and
`foundWithin_of_derives` that finitely many steps find whatever the rules do.
-/

namespace Unchain.Promise

open Syntax (Data NodeId Tree)

/-- What the rules can find. -/
inductive Finding where
  /-- The expression gives a promise. -/
  | promise (expression : NodeId)
  /-- A call of the function gives a promise. -/
  | returned (function : NodeId)
  /-- A call of what the variable was set to gives a promise. -/
  | initial (declaration : NodeId)
  /-- A call of the expression gives a promise. -/
  | called (callee : NodeId)

/-- What a question asks for. -/
def Question.finding : Question → Finding
  | .value node => .promise node
  | .result function => .returned function
  | .variableResult declaration => .initial declaration

/-- The callee of a call of `receiver.name`, which stands at `id`. -/
structure IsMethod (t : Tree) (callee : Option NodeId) (id : NodeId) (receiver : Option NodeId)
    (name : String) : Prop where
  skipped : t.skipParentheses callee = some id
  access : ∃ member dot, t.data? id = some (.access .property receiver member dot) ∧
    t.identifierText? member = some name

/-- A call of `this.name` where the class around has a member of that name. -/
structure IsOwnMethod (t : Tree) (callee : Option NodeId) (name : String) (member : NodeId) :
    Prop where
  method : ∃ id receiver, IsMethod t callee id receiver name ∧
    t.partData? receiver = some (.token .thisKeyword) ∧
    Rules.memberOfThis? t id name = some member
  notLink : name ∉ Names.links

/-- A name that declares or refers to a symbol, and what declares it. -/
structure IsDeclaredBy (t : Tree) (b : Binding.Table) (id : NodeId) (symbol : Binding.Symbol)
    (data : Data) : Prop where
  symbolOf : b.symbolOf? id = some symbol
  data? : t.data? symbol.declaration = some data

/-- The least set of findings that is closed under the rules of promises. -/
inductive Derives (t : Tree) (b : Binding.Table) (names : Names) : Finding → Prop
  /-- `(e)`. -/
  | parenthesized {id e : NodeId} (hid : t.data? id = some (.parenthesized (some e)))
      (he : Derives t b names (.promise e)) : Derives t b names (.promise id)
  /-- `e!`. -/
  | nonNull {id e : NodeId} (hid : t.data? id = some (.unary .nonNull (some e)))
      (he : Derives t b names (.promise e)) : Derives t b names (.promise id)
  /-- `e satisfies T`. -/
  | satisfies {id e : NodeId} {type}
      (hid : t.data? id = some (.assertion .satisfiesType (some e) type))
      (he : Derives t b names (.promise e)) : Derives t b names (.promise id)
  /-- `e as Promise<T>`. -/
  | asserted {id : NodeId} {e type} (hid : t.data? id = some (.assertion .asType e type))
      (htype : Rules.isPromiseType t names type = true) : Derives t b names (.promise id)
  /-- `c ? e : d`. -/
  | conditional {id e d : NodeId} {c}
      (hid : t.data? id = some (.conditional c (some e) (some d)))
      (he : Derives t b names (.promise e)) (hd : Derives t b names (.promise d)) :
      Derives t b names (.promise id)
  /-- `d, e`. -/
  | comma {id e : NodeId} {d} (hid : t.data? id = some (.binary d .comma (some e)))
      (he : Derives t b names (.promise e)) : Derives t b names (.promise id)
  /-- `new Promise(…)`. -/
  | construction {id : NodeId} {callee types arguments}
      (hid : t.data? id = some (.call .new callee types arguments))
      (hclass : Rules.isPromiseClass t b names callee = true) : Derives t b names (.promise id)
  /-- `e.then(…)`. -/
  | link {id e method : NodeId} {callee types arguments name}
      (hid : t.data? id = some (.call .call callee types arguments))
      (hmethod : IsMethod t callee method (some e) name) (hname : name ∈ Names.links)
      (he : Derives t b names (.promise e)) : Derives t b names (.promise id)
  /-- `Promise.all(…)`. -/
  | static {id method : NodeId} {callee types arguments receiver name}
      (hid : t.data? id = some (.call .call callee types arguments))
      (hmethod : IsMethod t callee method receiver name) (hlink : name ∉ Names.links)
      (hname : name ∈ Names.statics) (hclass : Rules.isPromiseClass t b names receiver = true) :
      Derives t b names (.promise id)
  /-- `e.json(…)`, on any receiver. -/
  | member {id method : NodeId} {callee types arguments receiver name}
      (hid : t.data? id = some (.call .call callee types arguments))
      (hmethod : IsMethod t callee method receiver name) (hlink : name ∉ Names.links)
      (hname : name ∈ names.members) : Derives t b names (.promise id)
  /-- `this.m(…)` where `m` is a method. -/
  | ownMethod {id method : NodeId} {callee types arguments name f}
      (hid : t.data? id = some (.call .call callee types arguments))
      (hown : IsOwnMethod t callee name method)
      (hdata : t.data? method = some (.function .method f))
      (hresult : Derives t b names (.returned method)) : Derives t b names (.promise id)
  /-- `this.p(…)` where the property `p` has a type. -/
  | ownTyped {id property : NodeId} {callee types arguments name p text}
      (hid : t.data? id = some (.call .call callee types arguments))
      (hown : IsOwnMethod t callee name property)
      (hdata : t.data? property = some (.propertyDeclaration p))
      (htype : typeText? t p.declaredType = some text)
      (htext : names.isPromiseFunctionType text = true) : Derives t b names (.promise id)
  /-- `this.p(…)` where the property `p` has a value and no type. -/
  | ownProperty {id property value : NodeId} {callee types arguments name p}
      (hid : t.data? id = some (.call .call callee types arguments))
      (hown : IsOwnMethod t callee name property)
      (hdata : t.data? property = some (.propertyDeclaration p))
      (htype : typeText? t p.declaredType = none)
      (hvalue : t.skipParentheses p.initializer = some value)
      (hcalled : Derives t b names (.called value)) : Derives t b names (.promise id)
  /-- `f(…)`. -/
  | call {id f : NodeId} {callee types arguments}
      (hid : t.data? id = some (.call .call callee types arguments))
      (hcallee : t.skipParentheses callee = some f) (hcalled : Derives t b names (.called f)) :
      Derives t b names (.promise id)
  /-- A variable with a type. -/
  | typedVariable {id : NodeId} {text symbol isDefinite type value}
      (hid : t.data? id = some (.identifier text))
      (hdecl : IsDeclaredBy t b id symbol
        (.variableDeclaration (some symbol.nameNode) isDefinite type value))
      (htype : Rules.isPromiseType t names type = true) : Derives t b names (.promise id)
  /-- A variable with a value and no type. -/
  | setVariable {id value : NodeId} {text symbol isDefinite}
      (hid : t.data? id = some (.identifier text))
      (hdecl : IsDeclaredBy t b id symbol
        (.variableDeclaration (some symbol.nameNode) isDefinite none (some value)))
      (hvalue : Derives t b names (.promise value)) : Derives t b names (.promise id)
  /-- A parameter with a type. -/
  | typedParameter {id : NodeId} {text symbol p} (hid : t.data? id = some (.identifier text))
      (hdecl : IsDeclaredBy t b id symbol (.parameter p))
      (htype : Rules.isPromiseType t names p.declaredType = true) :
      Derives t b names (.promise id)
  /-- An asynchronous function. -/
  | asyncFunction {f : NodeId} {kind parts} (hf : t.data? f = some (.function kind parts))
      (hasync : parts.isAsync = true) (hplain : parts.isGenerator = false) :
      Derives t b names (.returned f)
  /-- A function with a result type. -/
  | typedFunction {f : NodeId} {kind parts} (hf : t.data? f = some (.function kind parts))
      (htype : Rules.isPromiseType t names parts.declaredType = true) :
      Derives t b names (.returned f)
  /-- `() => e`. -/
  | expressionBody {f e : NodeId} {kind parts} (hf : t.data? f = some (.function kind parts))
      (htype : parts.declaredType = none) (hbody : parts.body = some e)
      (he : Derives t b names (.promise e)) : Derives t b names (.returned f)
  /-- A function that returns, and returns promises only. -/
  | blockBody {f : NodeId} {kind parts statements multiLine} {es : List NodeId}
      (hf : t.data? f = some (.function kind parts)) (htype : parts.declaredType = none)
      (hbody : t.partData? parts.body = some (.block .block statements multiLine))
      (hreturns : Rules.returnedBy t f = es.map some) (hne : es ≠ [])
      (hes : ∀ e ∈ es, Derives t b names (.promise e)) : Derives t b names (.returned f)
  /-- A variable that was set to something that gives a promise when called. -/
  | initial {declaration value : NodeId} {name isDefinite type initializer}
      (hdata : t.data? declaration =
        some (.variableDeclaration name isDefinite type initializer))
      (hvalue : t.skipParentheses initializer = some value)
      (hcalled : Derives t b names (.called value)) : Derives t b names (.initial declaration)
  /-- A function expression. -/
  | calledExpression {f : NodeId} {parts} (hf : t.data? f = some (.function .expression parts))
      (hresult : Derives t b names (.returned f)) : Derives t b names (.called f)
  /-- An arrow. -/
  | calledArrow {f : NodeId} {parts} (hf : t.data? f = some (.function .arrow parts))
      (hresult : Derives t b names (.returned f)) : Derives t b names (.called f)
  /-- `fetch`, unless the file declares it. -/
  | calledGlobal {id : NodeId} {name} (hid : t.identifierText? (some id) = some name)
      (hfree : b.symbolOf? id = none) (hname : name ∈ names.globals) :
      Derives t b names (.called id)
  /-- The name of a function. -/
  | calledFunction {id : NodeId} {name symbol f}
      (hid : t.identifierText? (some id) = some name)
      (hdecl : IsDeclaredBy t b id symbol (.function .declaration f))
      (hresult : Derives t b names (.returned symbol.declaration)) :
      Derives t b names (.called id)
  /-- The name of a variable with a type. -/
  | calledTypedVariable {id : NodeId} {name symbol target isDefinite type value text}
      (hid : t.identifierText? (some id) = some name)
      (hdecl : IsDeclaredBy t b id symbol (.variableDeclaration target isDefinite type value))
      (htype : typeText? t type = some text)
      (htext : names.isPromiseFunctionType text = true) : Derives t b names (.called id)
  /-- The name of a variable without a type. -/
  | calledVariable {id : NodeId} {name symbol target isDefinite type value}
      (hid : t.identifierText? (some id) = some name)
      (hdecl : IsDeclaredBy t b id symbol (.variableDeclaration target isDefinite type value))
      (htype : typeText? t type = none)
      (hresult : Derives t b names (.initial symbol.declaration)) :
      Derives t b names (.called id)
  /-- The name of a parameter with a type. -/
  | calledParameter {id : NodeId} {name symbol p text}
      (hid : t.identifierText? (some id) = some name)
      (hdecl : IsDeclaredBy t b id symbol (.parameter p))
      (htype : typeText? t p.declaredType = some text)
      (htext : names.isPromiseFunctionType text = true) : Derives t b names (.called id)

/-! ### What the rules respect -/

/-- A relation between answers in two monads that the rules cannot tell apart. -/
structure Respected {m n : Type → Type} [Monad m] [Monad n] (R : m Bool → n Bool → Prop) :
    Prop where
  pure (a : Bool) : R (pure a) (pure a)
  both {x x' y y'} (hx : R x x') (hy : R y y') : R (both x y) (both x' y')

namespace Rules

variable {m n : Type → Type} [Monad m] [Monad n] {R : m Bool → n Bool → Prop}
variable {t : Tree} {b : Binding.Table} {names : Names}
variable {ask : Question → m Bool} {ask' : Question → n Bool}

section

variable (hR : Respected R) (hask : ∀ q, R (ask q) (ask' q))
include hR hask

theorem respected_askValue (id : Option NodeId) : R (askValue ask id) (askValue ask' id) := by
  cases id with
  | none => exact hR.pure false
  | some id => exact hask (.value id)

theorem respected_askAll (ids : List (Option NodeId)) : R (askAll ask ids) (askAll ask' ids) := by
  induction ids with
  | nil => exact hR.pure true
  | cons id ids ih => exact hR.both (respected_askValue hR hask id) ih

theorem respected_isPromiseFunction (id : NodeId) :
    R (isPromiseFunction t names ask id) (isPromiseFunction t names ask' id) := by
  unfold isPromiseFunction
  split
  · split
    · exact hR.pure true
    · split
      · exact hR.pure _
      · split
        · exact hR.pure false
        · exact hR.both (hR.pure _) (respected_askAll hR hask _)
        · exact respected_askValue hR hask _
  · exact hR.pure false

theorem respected_isPromiseDeclaration (declaration : NodeId) :
    R (isPromiseDeclaration t names ask declaration)
      (isPromiseDeclaration t names ask' declaration) := by
  unfold isPromiseDeclaration
  split
  · exact hask (.result declaration)
  · split
    · exact hR.pure _
    · exact hask (.variableResult declaration)
  · exact hR.pure _
  · exact hR.pure false

theorem respected_isPromiseCallee (callee : Option NodeId) :
    R (isPromiseCallee t b names ask callee) (isPromiseCallee t b names ask' callee) := by
  unfold isPromiseCallee
  split
  · exact hR.pure false
  · split
    · exact hask _
    · exact hask _
    · split
      · exact respected_isPromiseDeclaration hR hask _
      · exact hR.pure _
    · split
      · exact respected_isPromiseDeclaration hR hask _
      · exact hR.pure _
    · exact hR.pure false

theorem respected_isPromiseMember (member : NodeId) :
    R (isPromiseMember t b names ask member) (isPromiseMember t b names ask' member) := by
  unfold isPromiseMember
  split
  · exact hask (.result member)
  · split
    · exact hR.pure _
    · exact respected_isPromiseCallee hR hask _
  · exact hR.pure false

theorem respected_isPromiseMethod (id : NodeId) (receiver : Option NodeId) (name : String) :
    R (isPromiseMethod t b names ask id receiver name)
      (isPromiseMethod t b names ask' id receiver name) := by
  unfold isPromiseMethod
  split
  · exact respected_askValue hR hask receiver
  · split
    · exact hR.pure true
    · split
      · exact hR.pure true
      · split
        · split
          · exact respected_isPromiseMember hR hask _
          · exact hR.pure false
        · exact hR.pure false

theorem respected_isPromiseCall (callee : Option NodeId) :
    R (isPromiseCall t b names ask callee) (isPromiseCall t b names ask' callee) := by
  simp only [isPromiseCall]
  split
  · split
    · exact hR.pure false
    · exact respected_isPromiseMethod hR hask ..
  · exact respected_isPromiseCallee hR hask _

theorem respected_isPromiseName (id : NodeId) :
    R (isPromiseName t b names ask id) (isPromiseName t b names ask' id) := by
  unfold isPromiseName
  split
  · exact hR.pure false
  · split
    · split
      · exact hR.pure false
      · split
        · exact hR.pure _
        · exact respected_askValue hR hask _
    · exact hR.pure _
    · exact hR.pure false

theorem respected_isPromiseValue (id : NodeId) :
    R (isPromiseValue t b names ask id) (isPromiseValue t b names ask' id) := by
  unfold isPromiseValue
  split
  · exact respected_askValue hR hask _
  · exact respected_askValue hR hask _
  · exact respected_askValue hR hask _
  · exact hR.pure _
  · exact respected_isPromiseCall hR hask _
  · exact hR.pure _
  · exact hR.both (respected_askValue hR hask _) (respected_askValue hR hask _)
  · exact respected_askValue hR hask _
  · exact respected_isPromiseName hR hask id
  · exact hR.pure false

theorem respected_isPromiseVariable (declaration : NodeId) :
    R (isPromiseVariable t b names ask declaration)
      (isPromiseVariable t b names ask' declaration) := by
  unfold isPromiseVariable
  split
  · exact respected_isPromiseCallee hR hask _
  · exact hR.pure false

/-- If the answers to all questions are related, so is what the rules make of them. -/
theorem respected_answer (q : Question) :
    R (answer t b names ask q) (answer t b names ask' q) := by
  cases q with
  | value id => exact respected_isPromiseValue hR hask id
  | result function => exact respected_isPromiseFunction hR hask function
  | variableResult declaration => exact respected_isPromiseVariable hR hask declaration

end
end Rules
/-! ### One step of the oracle follows the rules -/

theorem both_eq_true {x y : Id Bool} : both x y = true ↔ x = true ∧ y = true := by
  cases x <;> simp [both, pure, bind]

namespace Rules

variable {t : Tree} {b : Binding.Table} {names : Names} {ask : Question → Id Bool}

section Sound

variable (hask : ∀ q, ask q = true → Derives t b names q.finding)
include hask

theorem derives_of_askValue {id : Option NodeId} (h : askValue ask id = true) :
    ∃ e, id = some e ∧ Derives t b names (.promise e) := by
  cases id with
  | none => cases h
  | some e => exact ⟨e, rfl, hask (.value e) h⟩

theorem derives_of_askAll {ids : List (Option NodeId)} (h : askAll ask ids = true) :
    ∃ es : List NodeId, ids = es.map some ∧ ∀ e ∈ es, Derives t b names (.promise e) := by
  induction ids with
  | nil => exact ⟨[], rfl, by simp⟩
  | cons id ids ih =>
    obtain ⟨hid, hids⟩ := both_eq_true.mp h
    obtain ⟨e, rfl, he⟩ := derives_of_askValue hask hid
    obtain ⟨es, rfl, hes⟩ := ih hids
    exact ⟨e :: es, rfl, by simpa using ⟨he, hes⟩⟩

theorem derives_of_isPromiseFunction {f : NodeId}
    (h : isPromiseFunction t names ask f = true) : Derives t b names (.returned f) := by
  unfold isPromiseFunction at h
  split at h
  · next kind parts hf =>
    split at h
    · next hasync =>
      obtain ⟨hasync, hplain⟩ := Bool.and_eq_true_iff.mp hasync
      exact .asyncFunction hf hasync (by simpa using hplain)
    · split at h
      · exact .typedFunction hf h
      · next htype =>
        have htype : parts.declaredType = none := by simpa using htype
        split at h
        · cases h
        · next statements multiLine hbody =>
          obtain ⟨hsome, hall⟩ := both_eq_true.mp h
          obtain ⟨es, hreturns, hes⟩ := derives_of_askAll hask hall
          have hne : es ≠ [] := by
            rintro rfl
            simp [hreturns, pure] at hsome
          exact .blockBody hf htype hbody hreturns hne hes
        · obtain ⟨e, hbody, he⟩ := derives_of_askValue hask h
          exact .expressionBody hf htype hbody he
  · cases h

theorem derives_of_isPromiseDeclaration {id : NodeId} {name : String} {symbol : Binding.Symbol}
    (hid : t.identifierText? (some id) = some name) (hsymbol : b.symbolOf? id = some symbol)
    (h : isPromiseDeclaration t names ask symbol.declaration = true) :
    Derives t b names (.called id) := by
  unfold isPromiseDeclaration at h
  split at h
  · next hdata => exact .calledFunction hid ⟨hsymbol, hdata⟩ (hask (.result _) h)
  · next hdata =>
    split at h
    · next htype => exact .calledTypedVariable hid ⟨hsymbol, hdata⟩ htype h
    · next htype =>
      exact .calledVariable hid ⟨hsymbol, hdata⟩ htype (hask (.variableResult _) h)
  · next hdata =>
    obtain ⟨text, htype, htext⟩ := (Option.any_eq_true _ _).mp h
    exact .calledParameter hid ⟨hsymbol, hdata⟩ htype htext
  · cases h

theorem derives_of_symbolOf? {id : NodeId} {text : String}
    (hid : t.identifierText? (some id) = some text)
    (h : (match b.symbolOf? id with
      | some symbol => isPromiseDeclaration t names ask symbol.declaration
      | none => (pure (names.globals.contains text) : Id Bool)) = true) :
    Derives t b names (.called id) := by
  split at h
  · next hsymbol => exact derives_of_isPromiseDeclaration hask hid hsymbol h
  · next hsymbol => exact .calledGlobal hid hsymbol (List.contains_iff_mem.mp h)

theorem derives_of_isPromiseCallee {callee : Option NodeId}
    (h : isPromiseCallee t b names ask callee = true) :
    ∃ id, callee = some id ∧ Derives t b names (.called id) := by
  unfold isPromiseCallee at h
  split at h
  · cases h
  · next id =>
    refine ⟨id, rfl, ?_⟩
    split at h
    · next hid => exact .calledExpression hid (hask (.result id) h)
    · next hid => exact .calledArrow hid (hask (.result id) h)
    · next hid =>
      exact derives_of_symbolOf? hask (by simp [Tree.identifierText?, Tree.partData?, hid]) h
    · next hid =>
      exact derives_of_symbolOf? hask (by simp [Tree.identifierText?, Tree.partData?, hid]) h
    · cases h

theorem derives_of_isPromiseMethod {id method : NodeId} {callee types receiver : Option NodeId}
    {arguments : Option Syntax.NodeList} {name : String}
    (hid : t.data? id = some (.call .call callee types arguments))
    (hmethod : IsMethod t callee method receiver name)
    (h : isPromiseMethod t b names ask method receiver name = true) :
    Derives t b names (.promise id) := by
  unfold isPromiseMethod at h
  -- The four answers of a method are asked for in the order of the rules.
  split at h
  · next hlink =>
    obtain ⟨e, rfl, he⟩ := derives_of_askValue hask h
    exact .link hid hmethod (List.contains_iff_mem.mp hlink) he
  next hlink =>
  have hlink : name ∉ Names.links := by simpa using hlink
  split at h
  · next hstatic =>
    obtain ⟨hstatic, hclass⟩ := Bool.and_eq_true_iff.mp hstatic
    exact .static hid hmethod hlink (List.contains_iff_mem.mp hstatic) hclass
  split at h
  · next hname => exact .member hid hmethod hlink (List.contains_iff_mem.mp hname)
  split at h
  · next hthis =>
    split at h
    · next member hmember =>
      have hown : IsOwnMethod t callee name member :=
        ⟨⟨method, receiver, hmethod, hthis, hmember⟩, hlink⟩
      unfold isPromiseMember at h
      split at h
      · next hdata => exact .ownMethod hid hown hdata (hask (.result member) h)
      · next hdata =>
        split at h
        · next htype => exact .ownTyped hid hown hdata htype h
        · next htype =>
          obtain ⟨value, hvalue, hcalled⟩ := derives_of_isPromiseCallee hask h
          exact .ownProperty hid hown hdata htype hvalue hcalled
      · cases h
    · cases h
  · cases h

theorem derives_of_isPromiseCall {id : NodeId} {callee types : Option NodeId}
    {arguments : Option Syntax.NodeList}
    (hid : t.data? id = some (.call .call callee types arguments))
    (h : isPromiseCall t b names ask callee = true) : Derives t b names (.promise id) := by
  simp only [isPromiseCall] at h
  split at h
  · next method receiver member dot hskip hdata =>
    split at h
    · cases h
    · next name hname =>
      have haccess : t.data? method = some (.access .property receiver member dot) := by
        simpa [Tree.partData?, hskip] using hdata
      exact derives_of_isPromiseMethod hask hid ⟨hskip, member, dot, haccess, hname⟩ h
  · obtain ⟨f, hf, hcalled⟩ := derives_of_isPromiseCallee hask h
    exact .call hid hf hcalled

theorem derives_of_isPromiseName {id : NodeId} {text : String}
    (hid : t.data? id = some (.identifier text))
    (h : isPromiseName t b names ask id = true) : Derives t b names (.promise id) := by
  unfold isPromiseName at h
  split at h
  · cases h
  · next symbol hsymbol =>
    split at h
    · next name _ type initializer hdata =>
      split at h
      · cases h
      · next hname =>
        obtain rfl : name = some symbol.nameNode := by simpa using hname
        split at h
        · exact .typedVariable hid ⟨hsymbol, hdata⟩ h
        · next htype =>
          obtain rfl : type = none := by simpa using htype
          obtain ⟨value, rfl, hvalue⟩ := derives_of_askValue hask h
          exact .setVariable hid ⟨hsymbol, hdata⟩ hvalue
    · next hdata => exact .typedParameter hid ⟨hsymbol, hdata⟩ h
    · cases h

theorem derives_of_isPromiseValue {id : NodeId} (h : isPromiseValue t b names ask id = true) :
    Derives t b names (.promise id) := by
  unfold isPromiseValue at h
  split at h
  · next hid =>
    obtain ⟨e, rfl, he⟩ := derives_of_askValue hask h
    exact .parenthesized hid he
  · next hid =>
    obtain ⟨e, rfl, he⟩ := derives_of_askValue hask h
    exact .nonNull hid he
  · next hid =>
    obtain ⟨e, rfl, he⟩ := derives_of_askValue hask h
    exact .satisfies hid he
  · next hid => exact .asserted hid h
  · next hid => exact derives_of_isPromiseCall hask hid h
  · next hid => exact .construction hid h
  · next hid =>
    obtain ⟨hx, hy⟩ := both_eq_true.mp h
    obtain ⟨x, rfl, hdx⟩ := derives_of_askValue hask hx
    obtain ⟨y, rfl, hdy⟩ := derives_of_askValue hask hy
    exact .conditional hid hdx hdy
  · next hid =>
    obtain ⟨e, rfl, he⟩ := derives_of_askValue hask h
    exact .comma hid he
  · next hid => exact derives_of_isPromiseName hask hid h
  · cases h

theorem derives_of_isPromiseVariable {declaration : NodeId}
    (h : isPromiseVariable t b names ask declaration = true) :
    Derives t b names (.initial declaration) := by
  unfold isPromiseVariable at h
  split at h
  · next hdata =>
    obtain ⟨value, hvalue, hcalled⟩ := derives_of_isPromiseCallee hask h
    exact .initial hdata hvalue hcalled
  · cases h

/-- What the oracle concludes from findings of the rules is one too. -/
theorem derives_of_answer {q : Question} (h : answer t b names ask q = true) :
    Derives t b names q.finding := by
  cases q with
  | value id => exact derives_of_isPromiseValue hask h
  | result f => exact derives_of_isPromiseFunction hask h
  | variableResult declaration => exact derives_of_isPromiseVariable hask h

end Sound

end Rules

/-! ### Finitely many steps find what the rules find -/

/-- The answers that are found in `n` steps. -/
def answersWithin (t : Tree) (b : Binding.Table) (names : Names) : Nat → Question → Id Bool
  | 0, _ => false
  | n + 1, q => Rules.answer t b names (answersWithin t b names n) q

/-- What is found in `n` steps. -/
def FoundWithin (t : Tree) (b : Binding.Table) (names : Names) (n : Nat) : Finding → Prop
  | .promise id => answersWithin t b names n (.value id) = true
  | .returned f => answersWithin t b names n (.result f) = true
  | .initial declaration => answersWithin t b names n (.variableResult declaration) = true
  | .called callee =>
    Rules.isPromiseCallee t b names (answersWithin t b names n) (some callee) = true

/-- More findings lead to more findings. -/
theorem respected_imp : Respected (m := Id) (n := Id) fun x y : Bool => x = true → y = true where
  pure _ h := h
  both hx hy h := both_eq_true.mpr ((both_eq_true.mp h).imp hx hy)

variable {t : Tree} {b : Binding.Table} {names : Names}

theorem answersWithin_succ {n : Nat} {q : Question} (h : answersWithin t b names n q = true) :
    answersWithin t b names (n + 1) q = true := by
  induction n generalizing q with
  | zero => cases h
  | succ n ih => exact Rules.respected_answer respected_imp (fun q => ih (q := q)) q h

theorem answersWithin_mono {n k : Nat} (hnk : n ≤ k) {q : Question}
    (h : answersWithin t b names n q = true) : answersWithin t b names k q = true := by
  induction hnk with
  | refl => exact h
  | step _ ih => exact answersWithin_succ ih

theorem FoundWithin.askAll {es : List NodeId}
    (h : ∀ e ∈ es, ∃ n, FoundWithin t b names n (.promise e)) :
    ∃ n, Rules.askAll (answersWithin t b names n) (es.map some) = true := by
  induction es with
  | nil => exact ⟨0, rfl⟩
  | cons e es ih =>
    obtain ⟨n, hn⟩ := h e List.mem_cons_self
    obtain ⟨k, hk⟩ := ih fun e he => h e (List.mem_cons_of_mem _ he)
    refine ⟨max n k, both_eq_true.mpr ⟨?_, ?_⟩⟩
    · exact answersWithin_mono (Nat.le_max_left n k) hn
    · exact Rules.respected_askAll respected_imp
        (fun _ => answersWithin_mono (Nat.le_max_right n k)) _ hk

/-- The question about a node whose answer can be yes, by what the node holds. -/
def questionAbout (id : NodeId) : Data → Option Question
  | .function .. => some (.result id)
  | .variableDeclaration .. => some (.variableResult id)
  | .block .. => none
  | _ => some (.value id)

theorem questionAbout_of_answer {ask : Question → Id Bool} {q : Question}
    (h : Rules.answer t b names ask q = true) :
    ∃ data, t.data? q.node = some data ∧ questionAbout q.node data = some q := by
  cases q with
  | value id =>
    simp only [Rules.answer, Rules.isPromiseValue] at h
    split at h <;> first | exact ⟨_, ‹_›, rfl⟩ | cases h
  | result f =>
    simp only [Rules.answer, Rules.isPromiseFunction] at h
    split at h
    · exact ⟨_, ‹_›, rfl⟩
    · cases h
  | variableResult declaration =>
    simp only [Rules.answer, Rules.isPromiseVariable] at h
    split at h
    · exact ⟨_, ‹_›, rfl⟩
    · cases h

theorem questionAbout_of_answersWithin {n : Nat} {q : Question}
    (h : answersWithin t b names n q = true) :
    ∃ data, t.data? q.node = some data ∧ questionAbout q.node data = some q := by
  cases n with
  | zero => cases h
  | succ n => exact questionAbout_of_answer h

theorem isSome_of_isPromiseType {type : Option NodeId}
    (h : Rules.isPromiseType t names type = true) : type.isSome = true := by
  cases type with
  | none => simp [Rules.isPromiseType, typeText?, Tree.partData?] at h
  | some => rfl

theorem identifierText?_eq_some {id : NodeId} {name : String}
    (h : t.identifierText? (some id) = some name) :
    t.data? id = some (.identifier name) ∨ t.data? id = some (.privateIdentifier name) := by
  simp only [Tree.identifierText?, Tree.partData?, Option.bind_some] at h
  split at h
  · next hid => exact .inl (by rw [hid, Option.some.inj h])
  · next hid => exact .inr (by rw [hid, Option.some.inj h])
  · cases h

/-! ### Answers by the rules

Where a rule applies the oracle answers yes, if it gets that answer to whatever the rule asks for.
-/

namespace Rules

section Complete

variable {ask : Question → Id Bool} {id : NodeId} {callee : Option NodeId}

/-- The part that an expression always has its value from. -/
def valuePart? : Data → Option NodeId
  | .parenthesized e | .unary .nonNull e | .assertion .satisfiesType e _ => e
  | .binary _ .comma right => right
  | _ => none

theorem answer_valuePart {data : Data} {e : NodeId} (hid : t.data? id = some data)
    (hpart : valuePart? data = some e) (he : ask (.value e) = true) :
    answer t b names ask (.value id) = true := by
  unfold valuePart? at hpart
  split at hpart <;>
    first | simpa only [answer, isPromiseValue, hid, hpart, askValue] using he | cases hpart

theorem answer_asserted {e type : Option NodeId}
    (hid : t.data? id = some (.assertion .asType e type))
    (htype : isPromiseType t names type = true) :
    answer t b names ask (.value id) = true := by
  simp only [answer, isPromiseValue, hid]
  exact htype

theorem answer_conditional {c : Option NodeId} {e d : NodeId}
    (hid : t.data? id = some (.conditional c (some e) (some d))) (he : ask (.value e) = true)
    (hd : ask (.value d) = true) : answer t b names ask (.value id) = true := by
  simp only [answer, isPromiseValue, hid]
  exact both_eq_true.mpr ⟨he, hd⟩

theorem answer_construction {types arguments}
    (hid : t.data? id = some (.call .new callee types arguments))
    (hclass : isPromiseClass t b names callee = true) :
    answer t b names ask (.value id) = true := by
  simp only [answer, isPromiseValue, hid]
  exact hclass

theorem answer_call {types arguments}
    (hid : t.data? id = some (.call .call callee types arguments))
    (h : isPromiseCall t b names ask callee = true) :
    answer t b names ask (.value id) = true := by
  simpa only [answer, isPromiseValue, hid] using h

theorem answer_name {text : String} (hid : t.data? id = some (.identifier text))
    (h : isPromiseName t b names ask id = true) : answer t b names ask (.value id) = true := by
  simpa only [answer, isPromiseValue, hid] using h

/-! #### Calls -/

theorem isPromiseCall_method {receiver : Option NodeId} {method : NodeId} {name : String}
    (h : IsMethod t callee method receiver name) :
    isPromiseCall t b names ask callee =
      isPromiseMethod t b names ask method receiver name := by
  obtain ⟨hskip, member, dot, hdata, hname⟩ := h
  simp only [isPromiseCall, hskip, Tree.partData?, Option.bind_some, hdata, hname]

theorem isPromiseCall_link {e method : NodeId} {name : String}
    (h : IsMethod t callee method (some e) name) (hname : name ∈ Names.links)
    (he : ask (.value e) = true) : isPromiseCall t b names ask callee = true := by
  rw [isPromiseCall_method h, isPromiseMethod, if_pos (by simpa using hname)]
  exact he

theorem isPromiseCall_static {receiver : Option NodeId} {method : NodeId} {name : String}
    (h : IsMethod t callee method receiver name) (hlink : name ∉ Names.links)
    (hname : name ∈ Names.statics) (hclass : isPromiseClass t b names receiver = true) :
    isPromiseCall t b names ask callee = true := by
  rw [isPromiseCall_method h, isPromiseMethod, if_neg (by simpa using hlink),
    if_pos (by simpa [hclass] using hname)]
  rfl

theorem isPromiseCall_member {receiver : Option NodeId} {method : NodeId} {name : String}
    (h : IsMethod t callee method receiver name) (hlink : name ∉ Names.links)
    (hname : name ∈ names.members) : isPromiseCall t b names ask callee = true := by
  rw [isPromiseCall_method h, isPromiseMethod, if_neg (by simpa using hlink),
    if_pos (c := names.members.contains _ = true) (by simpa using hname), ite_self]
  rfl

theorem isPromiseCall_own {member : NodeId} {name : String}
    (h : IsOwnMethod t callee name member) (hmember : isPromiseMember t b names ask member = true) :
    isPromiseCall t b names ask callee = true := by
  obtain ⟨⟨id, receiver, hmethod, hthis, hfound⟩, hlink⟩ := h
  rw [isPromiseCall_method hmethod, isPromiseMethod, if_neg (by simpa using hlink)]
  split
  · rfl
  split
  · rfl
  · simp only [hthis, hfound, hmember]

theorem isPromiseCall_called {f : NodeId} (hskip : t.skipParentheses callee = some f)
    (h : isPromiseCallee t b names ask (some f) = true) :
    isPromiseCall t b names ask callee = true := by
  simp only [isPromiseCall, hskip, Tree.partData?, Option.bind_some]
  split
  · next haccess =>
    obtain rfl := Option.some.inj ‹some f = some _›
    simp only [isPromiseCallee, haccess] at h
    cases h
  · exact h

/-! #### Members of the class around -/

variable {member : NodeId}

theorem isPromiseMember_method {f : Syntax.Function}
    (hdata : t.data? member = some (.function .method f)) (h : ask (.result member) = true) :
    isPromiseMember t b names ask member = true := by
  simpa only [isPromiseMember, hdata] using h

theorem isPromiseMember_typed {p : Syntax.PropertyDeclaration} {text : List Char}
    (hdata : t.data? member = some (.propertyDeclaration p))
    (htype : typeText? t p.declaredType = some text)
    (htext : names.isPromiseFunctionType text = true) :
    isPromiseMember t b names ask member = true := by
  simp only [isPromiseMember, hdata, htype]
  exact htext

theorem isPromiseMember_property {p : Syntax.PropertyDeclaration} {value : NodeId}
    (hdata : t.data? member = some (.propertyDeclaration p))
    (htype : typeText? t p.declaredType = none)
    (hvalue : t.skipParentheses p.initializer = some value)
    (h : isPromiseCallee t b names ask (some value) = true) :
    isPromiseMember t b names ask member = true := by
  simpa only [isPromiseMember, hdata, htype, hvalue] using h

/-! #### Names -/

variable {symbol : Binding.Symbol}

theorem isPromiseName_typedVariable {isDefinite : Bool} {type value : Option NodeId}
    (hdecl : IsDeclaredBy t b id symbol
      (.variableDeclaration (some symbol.nameNode) isDefinite type value))
    (htype : isPromiseType t names type = true) : isPromiseName t b names ask id = true := by
  simp only [isPromiseName, hdecl.symbolOf, hdecl.data?, isSome_of_isPromiseType htype, if_true]
  rw [if_neg (by simp)]
  exact htype

theorem isPromiseName_setVariable {isDefinite : Bool} {value : NodeId}
    (hdecl : IsDeclaredBy t b id symbol
      (.variableDeclaration (some symbol.nameNode) isDefinite none (some value)))
    (h : ask (.value value) = true) : isPromiseName t b names ask id = true := by
  simpa [isPromiseName, hdecl.symbolOf, hdecl.data?, askValue] using h

theorem isPromiseName_parameter {p : Syntax.Parameter}
    (hdecl : IsDeclaredBy t b id symbol (.parameter p))
    (htype : isPromiseType t names p.declaredType = true) :
    isPromiseName t b names ask id = true := by
  simp only [isPromiseName, hdecl.symbolOf, hdecl.data?]
  exact htype

/-! #### Functions -/

variable {f : NodeId} {kind : Syntax.FunctionKind} {parts : Syntax.Function}

theorem answer_async (hf : t.data? f = some (.function kind parts))
    (hasync : parts.isAsync = true) (hplain : parts.isGenerator = false) :
    answer t b names ask (.result f) = true := by
  simp only [answer, isPromiseFunction, hf, hasync, hplain]
  rfl

theorem answer_typedFunction (hf : t.data? f = some (.function kind parts))
    (htype : isPromiseType t names parts.declaredType = true) :
    answer t b names ask (.result f) = true := by
  simp only [answer, isPromiseFunction, hf, isSome_of_isPromiseType htype, htype, if_true]
  split <;> rfl

/-- A body that gives a promise is an expression, since a block is no question. -/
theorem answer_expressionBody {e : NodeId} {data : Data}
    (hf : t.data? f = some (.function kind parts)) (htype : parts.declaredType = none)
    (hbody : parts.body = some e) (hdata : t.data? e = some data)
    (hquestion : questionAbout e data = some (.value e)) (he : ask (.value e) = true) :
    answer t b names ask (.result f) = true := by
  simp only [answer, isPromiseFunction, hf, htype, hbody, Tree.partData?, Option.bind_some]
  split
  · rfl
  · split
    · contradiction
    · split
      · next hnone => cases hdata.symm.trans hnone
      · next hblock =>
        obtain rfl := Option.some.inj (hdata.symm.trans hblock)
        cases hquestion
      · exact he

theorem answer_blockBody {statements multiLine} {es : List NodeId}
    (hf : t.data? f = some (.function kind parts)) (htype : parts.declaredType = none)
    (hbody : t.partData? parts.body = some (.block .block statements multiLine))
    (hreturns : returnedBy t f = es.map some) (hne : es ≠ [])
    (hes : askAll ask (es.map some) = true) : answer t b names ask (.result f) = true := by
  have hsome : (!(returnedBy t f).isEmpty) = true := by simpa [hreturns] using hne
  simp only [answer, isPromiseFunction, hf, htype, hbody]
  split
  · rfl
  · exact both_eq_true.mpr ⟨hsome, by rwa [hreturns]⟩

theorem answer_variable {declaration value : NodeId} {name isDefinite type initializer}
    (hdata : t.data? declaration = some (.variableDeclaration name isDefinite type initializer))
    (hvalue : t.skipParentheses initializer = some value)
    (h : isPromiseCallee t b names ask (some value) = true) :
    answer t b names ask (.variableResult declaration) = true := by
  simpa only [answer, isPromiseVariable, hdata, hvalue] using h

/-! #### Callees -/

theorem isPromiseCallee_function (hkind : kind = .expression ∨ kind = .arrow)
    (hf : t.data? f = some (.function kind parts)) (h : ask (.result f) = true) :
    isPromiseCallee t b names ask (some f) = true := by
  rcases hkind with rfl | rfl <;> simpa only [isPromiseCallee, hf] using h

variable {name : String} (hid : t.identifierText? (some id) = some name)
include hid

theorem isPromiseCallee_global (hfree : b.symbolOf? id = none) (hname : name ∈ names.globals) :
    isPromiseCallee t b names ask (some id) = true := by
  rcases identifierText?_eq_some hid with hid | hid <;>
    simp only [isPromiseCallee, hid, hfree] <;>
    exact List.contains_iff_mem.mpr hname

/-- A name that is declared is called as its declaration says. -/
theorem isPromiseCallee_declared (hsymbol : b.symbolOf? id = some symbol)
    (h : isPromiseDeclaration t names ask symbol.declaration = true) :
    isPromiseCallee t b names ask (some id) = true := by
  rcases identifierText?_eq_some hid with hid | hid <;>
    simpa only [isPromiseCallee, hid, hsymbol] using h

theorem isPromiseCallee_named {g : Syntax.Function}
    (hdecl : IsDeclaredBy t b id symbol (.function .declaration g))
    (h : ask (.result symbol.declaration) = true) :
    isPromiseCallee t b names ask (some id) = true := by
  refine isPromiseCallee_declared hid hdecl.symbolOf ?_
  simpa only [isPromiseDeclaration, hdecl.data?] using h

theorem isPromiseCallee_typedVariable {target isDefinite type value} {text : List Char}
    (hdecl : IsDeclaredBy t b id symbol (.variableDeclaration target isDefinite type value))
    (htype : typeText? t type = some text) (htext : names.isPromiseFunctionType text = true) :
    isPromiseCallee t b names ask (some id) = true := by
  refine isPromiseCallee_declared hid hdecl.symbolOf ?_
  simp only [isPromiseDeclaration, hdecl.data?, htype]
  exact htext

theorem isPromiseCallee_variable {target isDefinite type value}
    (hdecl : IsDeclaredBy t b id symbol (.variableDeclaration target isDefinite type value))
    (htype : typeText? t type = none) (h : ask (.variableResult symbol.declaration) = true) :
    isPromiseCallee t b names ask (some id) = true := by
  refine isPromiseCallee_declared hid hdecl.symbolOf ?_
  simpa only [isPromiseDeclaration, hdecl.data?, htype] using h

theorem isPromiseCallee_parameter {p : Syntax.Parameter} {text : List Char}
    (hdecl : IsDeclaredBy t b id symbol (.parameter p))
    (htype : typeText? t p.declaredType = some text)
    (htext : names.isPromiseFunctionType text = true) :
    isPromiseCallee t b names ask (some id) = true := by
  refine isPromiseCallee_declared hid hdecl.symbolOf ?_
  simp only [isPromiseDeclaration, hdecl.data?, htype]
  exact htext

end Complete

end Rules

open Rules in
/-- Everything that the rules find is found in finitely many steps: in one more than what the last
rule asks for. -/
theorem foundWithin_of_derives {finding : Finding} (h : Derives t b names finding) :
    ∃ n, FoundWithin t b names n finding := by
  induction h with
  | parenthesized hid _ ih | nonNull hid _ ih | satisfies hid _ ih | comma hid _ ih =>
    obtain ⟨n, hn⟩ := ih
    exact ⟨n + 1, answer_valuePart hid rfl hn⟩
  | asserted hid htype => exact ⟨1, answer_asserted hid htype⟩
  | conditional hid _ _ ihe ihd =>
    obtain ⟨n, hn⟩ := ihe
    obtain ⟨k, hk⟩ := ihd
    exact ⟨max n k + 1, answer_conditional hid (answersWithin_mono (Nat.le_max_left n k) hn)
      (answersWithin_mono (Nat.le_max_right n k) hk)⟩
  | construction hid hclass => exact ⟨1, answer_construction hid hclass⟩
  | link hid hmethod hname _ ih =>
    obtain ⟨n, hn⟩ := ih
    exact ⟨n + 1, answer_call hid (isPromiseCall_link hmethod hname hn)⟩
  | static hid hmethod hlink hname hclass =>
    exact ⟨1, answer_call hid (isPromiseCall_static hmethod hlink hname hclass)⟩
  | member hid hmethod hlink hname =>
    exact ⟨1, answer_call hid (isPromiseCall_member hmethod hlink hname)⟩
  | ownMethod hid hown hdata _ ih =>
    obtain ⟨n, hn⟩ := ih
    exact ⟨n + 1, answer_call hid (isPromiseCall_own hown (isPromiseMember_method hdata hn))⟩
  | ownTyped hid hown hdata htype htext =>
    exact ⟨1, answer_call hid
      (isPromiseCall_own hown (isPromiseMember_typed hdata htype htext))⟩
  | ownProperty hid hown hdata htype hvalue _ ih =>
    obtain ⟨n, hn⟩ := ih
    exact ⟨n + 1, answer_call hid
      (isPromiseCall_own hown (isPromiseMember_property hdata htype hvalue hn))⟩
  | call hid hcallee _ ih =>
    obtain ⟨n, hn⟩ := ih
    exact ⟨n + 1, answer_call hid (isPromiseCall_called hcallee hn)⟩
  | typedVariable hid hdecl htype =>
    exact ⟨1, answer_name hid (isPromiseName_typedVariable hdecl htype)⟩
  | setVariable hid hdecl _ ih =>
    obtain ⟨n, hn⟩ := ih
    exact ⟨n + 1, answer_name hid (isPromiseName_setVariable hdecl hn)⟩
  | typedParameter hid hdecl htype =>
    exact ⟨1, answer_name hid (isPromiseName_parameter hdecl htype)⟩
  | asyncFunction hf hasync hplain => exact ⟨1, answer_async hf hasync hplain⟩
  | typedFunction hf htype => exact ⟨1, answer_typedFunction hf htype⟩
  | expressionBody hf htype hbody _ ih =>
    obtain ⟨n, hn⟩ := ih
    obtain ⟨data, hdata, hquestion⟩ := questionAbout_of_answersWithin hn
    exact ⟨n + 1, answer_expressionBody hf htype hbody hdata hquestion hn⟩
  | blockBody hf htype hbody hreturns hne _ ih =>
    obtain ⟨n, hn⟩ := FoundWithin.askAll ih
    exact ⟨n + 1, answer_blockBody hf htype hbody hreturns hne hn⟩
  | initial hdata hvalue _ ih =>
    obtain ⟨n, hn⟩ := ih
    exact ⟨n + 1, answer_variable hdata hvalue hn⟩
  -- What a callee gives is asked for at once.
  | calledExpression hf _ ih =>
    obtain ⟨n, hn⟩ := ih
    exact ⟨n, isPromiseCallee_function (.inl rfl) hf hn⟩
  | calledArrow hf _ ih =>
    obtain ⟨n, hn⟩ := ih
    exact ⟨n, isPromiseCallee_function (.inr rfl) hf hn⟩
  | calledGlobal hid hfree hname => exact ⟨0, isPromiseCallee_global hid hfree hname⟩
  | calledFunction hid hdecl _ ih =>
    obtain ⟨n, hn⟩ := ih
    exact ⟨n, isPromiseCallee_named hid hdecl hn⟩
  | calledTypedVariable hid hdecl htype htext =>
    exact ⟨0, isPromiseCallee_typedVariable hid hdecl htype htext⟩
  | calledVariable hid hdecl htype _ ih =>
    obtain ⟨n, hn⟩ := ih
    exact ⟨n, isPromiseCallee_variable hid hdecl htype hn⟩
  | calledParameter hid hdecl htype htext =>
    exact ⟨0, isPromiseCallee_parameter hid hdecl htype htext⟩

end Unchain.Promise
