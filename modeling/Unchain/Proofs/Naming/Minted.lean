import Unchain.Proofs.Naming.Distinct
import Unchain.Proofs.Placing.SourceFile
import Unchain.Proofs.Promise.Derives

/-!
# Names for values without one

A value that goes to a handler which is given by its name is called after the
first parameter of that handler. So its name may be bound, as that of the
parameter may, with one exception: the first parameter may be the one that only
gives the receiver a type, and then the value is called `this`
(`choose?_mayBind`). A name that is in use gets a number, and with it any name
may be bound, `this` too (`mayBind_of_freeName?`).
-/

namespace Unchain.Promise

open Syntax (Data NodeId Tree)

variable {t : Tree} {b : Binding.Table} {function id : NodeId} {name : String}

/-- The first parameter of a function is called by a name that may be bound, or `this`. -/
theorem mayBind_of_functionParameter?
    (hnamed : ∀ {id d}, t.data? id = some d → t.IsNamed d)
    (h : functionParameter? t function = some name) : Token.MayBind name ∨ name = "this" := by
  unfold functionParameter? at h
  split at h
  · split at h
    · next p hparameter =>
      obtain ⟨first, -, hdata⟩ := Option.bind_eq_some_iff.mp hparameter
      cases hid : p.name with
      | none =>
        rw [hid] at h
        cases h
      | some id =>
        obtain ⟨d, hd, hname⟩ := hnamed hdata id hid
        rcases identifierText?_eq_some (hid ▸ h) with htext | htext
        · obtain rfl := Option.some.inj (hd.symm.trans htext)
          exact hname.imp_right Data.identifier.inj
        · obtain rfl := Option.some.inj (hd.symm.trans htext)
          exact hname.elim False.elim nofun
    · cases h
  · cases h

/-- So it is for the function that a name refers to. -/
theorem mayBind_of_firstParameterOf?
    (hnamed : ∀ {id d}, t.data? id = some d → t.IsNamed d)
    (h : firstParameterOf? t b id = some name) : Token.MayBind name ∨ name = "this" := by
  obtain ⟨id', -, h⟩ := Option.bind_eq_some_iff.mp h
  split at h
  · exact mayBind_of_functionParameter? hnamed h
  · obtain ⟨symbol, -, h⟩ := Option.bind_eq_some_iff.mp h
    split at h
    · exact mayBind_of_functionParameter? hnamed h
    · obtain ⟨value, -, h⟩ := Option.bind_eq_some_iff.mp h
      split at h
      · exact mayBind_of_functionParameter? hnamed h
      · exact mayBind_of_functionParameter? hnamed h
      · cases h
    · cases h

end Unchain.Promise

namespace Unchain.Naming

open Binding (SymbolId Table)
open Promise (Names Oracle)
open Syntax (NodeId Tree)
open Token (MayBind)

variable {source : Tree} {b : Table} {o : Oracle} {r r' : Register}
  {names : List (SymbolId × String)} {handler : NodeId} {base name : String}

/-! ### Names with a number -/

theorem isNamePart_of_isDigit {c : Char} (h : c.isDigit = true) : Token.isNamePart c = true := by
  simp [Token.isNamePart, h]

/-- A name with a number may be bound, whatever name it is. -/
theorem mayBind_numbered (h : Token.isName base = true) (n : Nat) :
    MayBind (Register.numbered base n) := by
  refine Token.mayBind_append_underscore h fun c hc => isNamePart_of_isDigit ?_
  rw [Nat.toString_eq_repr, Nat.toList_repr] at hc
  exact Nat.isDigit_of_mem_toDigits (by decide) (by decide) hc

/-- A free name may be bound, or it is the one that was asked for. -/
theorem mayBind_of_freeName? (hbase : Token.isName base = true)
    (h : r.freeName? base = some name) : MayBind name ∨ name = base := by
  unfold Register.freeName? at h
  split at h
  · obtain ⟨n, -, rfl⟩ := Option.map_eq_some_iff.mp h
    exact .inl (mayBind_numbered hbase _)
  · exact .inr (Option.some.inj h).symm

/-! ### Values that go to a handler -/

/-- A value may be called so, or it is called like the receiver of the handler. -/
def Suits (o : Oracle) (handler : NodeId) (name : String) : Prop :=
  MayBind name ∨ name = "this" ∧ o.firstParameter? handler = some "this"

theorem Suits.isName (h : Suits o handler name) : Token.isName name = true := by
  rcases h with h | ⟨rfl, -⟩
  · exact h.1
  · decide +kernel

section

variable (hparameters : ∀ {id name}, o.firstParameter? id = some name →
  MayBind name ∨ name = "this")
include hparameters

theorem suits_baseName (role : Role) : Suits o handler (baseName source o handler role) := by
  have hresult : MayBind "result" := by decide +kernel
  have hreason : MayBind "e" := by decide +kernel
  unfold baseName
  extract_lets usual
  have husual : MayBind usual := by
    cases role with
    | fulfillment => exact hresult
    | rejection => exact hreason
  split
  · exact .inl husual
  · exact .inl husual
  · cases hname : (o.firstParameter? handler).filter (· ≠ "_") with
    | none => exact .inl husual
    | some name =>
      have hfirst := (Option.filter_eq_some_iff.mp hname).1
      exact (hparameters hfirst).imp_right fun heq => ⟨heq, heq ▸ hfirst⟩

/-- Entering a handler gives a value a name that suits, if it gives one. -/
theorem suits_enterSite? {site : Site} (h : enterSite? source b o names r site = some r')
    (hr : ∀ {handler name}, r.name? (.minted handler) = some name → Suits o handler name)
    (hname : r'.name? (.minted handler) = some name) : Suits o handler name := by
  unfold enterSite? at h
  split at h
  · split at h
    · obtain rfl := Option.some.inj h
      rw [Register.name?_insert, if_neg nofun] at hname
      exact hr hname
    · obtain rfl := Option.some.inj h
      exact hr hname
  · split at h
    · obtain rfl := Option.some.inj h
      exact hr hname
    · next other _ _ =>
      obtain ⟨⟨chosen, register⟩, hreserve, h⟩ := Option.bind_eq_some_iff.mp h
      obtain ⟨hfree, rfl⟩ := Register.reserve?_eq_some_iff.mp hreserve
      obtain rfl := Option.some.inj h
      rw [Register.name?_insert] at hname
      split at hname
      · next heq =>
        obtain rfl := Key.minted.inj heq
        obtain rfl := Option.some.inj hname
        have hbase : Suits o handler (baseName source o handler site.role) :=
          suits_baseName hparameters site.role
        rcases mayBind_of_freeName? hbase.isName hfree with hbind | rfl
        · exact .inl hbind
        · exact hbase
      · exact hr hname
  · obtain rfl := Option.some.inj h
    exact hr hname

theorem suits_foldlM_enterSite? {sites : List Site}
    (h : sites.foldlM (enterSite? source b o names) r = some r')
    (hr : ∀ {handler name}, r.name? (.minted handler) = some name → Suits o handler name)
    (hname : r'.name? (.minted handler) = some name) : Suits o handler name := by
  induction sites generalizing r with
  | nil =>
    obtain rfl := Option.some.inj h
    exact hr hname
  | cons site rest ih =>
    rw [List.foldlM_cons] at h
    obtain ⟨middle, hstep, hrest⟩ := Option.bind_eq_some_iff.mp h
    exact ih hrest (suits_enterSite? hparameters hstep hr)

end

/-- The name of a value that goes to a handler may be bound, whatever the first parameter of that
is, unless it is the one that only gives the receiver a type: then the value may be called
`this`. -/
theorem choose?_mayBind (fileName source : String) (types : Names) {function : NodeId}
    {chains : List NodeId} {t tree : Tree} {register : Register} :
    let read := SourceFile.ofSource fileName source
    let o := Oracle.ofFile read types
    choose? read.tree read.bindings o function chains t = some (register, tree) →
      register.name? (.minted handler) = some name →
      MayBind name ∨ name = "this" ∧ o.firstParameter? handler = some "this" := by
  intro read o h hname
  obtain ⟨outer, -, h⟩ := Option.bind_eq_some_iff.mp h
  obtain ⟨choice, hchoice, h⟩ := Option.bind_eq_some_iff.mp h
  obtain ⟨entered, henter, h⟩ := Option.bind_eq_some_iff.mp h
  obtain ⟨rfl, rfl⟩ := Prod.mk.inj (Option.some.inj h)
  obtain ⟨-, -, hnone⟩ := of_chooseSymbols? hchoice
  refine suits_foldlM_enterSite? (o := o) ?_ henter (fun hr => ?_) hname
  · exact fun hfirst =>
      Promise.mayBind_of_firstParameterOf? (SourceTree.ofSource_isNamed fileName source) hfirst
  · rw [hnone] at hr
    cases hr

/-- A value is called like the parameter of the function that it goes to. -/
theorem choose?_mayBind_parameter :
    let read := SourceFile.ofSource "a.ts" "function h(v){}()=>fetch().then(h)"
    let o := Oracle.ofFile read {}
    ∃ register tree,
      choose? read.tree read.bindings o 11 [10] read.tree = some (register, tree) ∧
        register.name? (.minted 9) = some "v" ∧
        (MayBind "v" ∨ "v" = "this" ∧ o.firstParameter? 9 = some "this") := by
  intro read o
  have hname : (choose? read.tree read.bindings o 11 [10] read.tree).any (fun chosen =>
      chosen.1.name? (.minted 9) = some "v") = true := by decide +kernel
  obtain ⟨⟨register, tree⟩, hchoose, hname⟩ := (Option.any_eq_true ..).mp hname
  have hname : register.name? (.minted 9) = some "v" := of_decide_eq_true hname
  exact ⟨register, tree, hchoose, hname, choose?_mayBind "a.ts" _ {} hchoose hname⟩

end Unchain.Naming
