import Unchain.Proofs.Unroll.Steps

/-!
# What statements do to bindings

The statements that a conversion writes declare bindings and write to them.
`Follows` relates them, in the order in which they are written, to what the
register knows before and after.

The first statement about a binding declares it, and no other statement that
declares a binding by `const` or `let` follows (`Follows.first`,
`Follows.declared`). How often a binding is written comes off its count
(`Follows.writesLeft`). If the count is as large as the number of writes, no
constant is assigned to again (`Follows.constant`).
-/

namespace Unchain

open Naming (Key Register)

/-! ### Counts and declarations of a register -/

namespace Naming.Register

theorem isSome_name? (r : Register) (key : Key) : (r.name? key).isSome = (r.get? key).isSome :=
  Option.isSome_map

theorem isDeclared_declare (r : Register) (key other : Key) :
    (r.declare key).isDeclared other =
      (r.isDeclared other || (decide (other = key) && (r.name? other).isSome)) := by
  by_cases h : other = key
  · subst h
    rw [isSome_name?, isDeclared, declare, get?_modify, if_pos rfl, isDeclared]
    cases r.get? other <;> simp
  · rw [isDeclared_declare_of_ne r h]
    simp [h]

theorem writesLeft_declare (r : Register) (key other : Key) :
    (r.declare key).writesLeft other = r.writesLeft other := by
  rw [writesLeft, writesLeft, declare, get?_modify]
  split
  · next h =>
    subst h
    cases r.get? other <;> rfl
  · rfl

theorem writesLeft_consume (r : Register) (key other : Key) :
    (r.consume key).writesLeft other = r.writesLeft other - if other = key then 1 else 0 := by
  rw [writesLeft, writesLeft, consume, get?_modify]
  by_cases h : other = key
  · subst h
    cases r.get? other <;> simp
  · rw [if_neg h, if_neg h, Nat.sub_zero]

end Naming.Register

namespace Unroll

/-! ### Events -/

/-- What a statement does to a binding. -/
inductive Event where
  /-- `const x = …;` or `let x = …;` as the first write. -/
  | declares (key : Key) (isConst : Bool)
  /-- `x = …;` -/
  | assigns (key : Key)
  /-- `let x;` ahead of a `try`. -/
  | hoists (key : Key)
  /-- `catch (x)` -/
  | catches (key : Key)
  deriving DecidableEq, Repr

namespace Event

/-- The binding that a statement is about. -/
def key : Event → Key
  | declares key _ | assigns key | hoists key | catches key => key

/-- Whether a statement gives the binding a value. -/
def writes (key : Key) : Event → Bool
  | declares other _ | assigns other => other = key
  | hoists _ | catches _ => false

/-- A declaration by `const` or `let`. -/
def isDeclaration : Event → Bool
  | declares .. | hoists _ => true
  | assigns _ | catches _ => false

/-- What is known of the bindings after a statement. -/
def apply (r : Register) : Event → Register
  | declares key _ | assigns key => (r.declare key).consume key
  | hoists key | catches key => r.declare key

/-- When a statement is written. -/
def Allowed (r : Register) : Event → Prop
  | declares key isConst =>
    (r.name? key).isSome ∧ r.isDeclared key = false ∧ (isConst = true → r.writesLeft key ≤ 1)
  | assigns key => r.isDeclared key = true
  | hoists key => (r.name? key).isSome ∧ r.isDeclared key = false
  | catches _ => True

variable {r : Register} {e : Event} {key : Key}

theorem name?_apply (r : Register) (e : Event) (key : Key) :
    (e.apply r).name? key = r.name? key := by
  cases e <;> simp [apply]

theorem isDeclared_apply (r : Register) (e : Event) (key : Key) :
    (e.apply r).isDeclared key =
      (r.isDeclared key || (decide (key = e.key) && (r.name? key).isSome)) := by
  cases e with
  | declares other isConst =>
      exact (Register.isDeclared_consume ..).trans (Register.isDeclared_declare ..)
  | assigns other => exact (Register.isDeclared_consume ..).trans (Register.isDeclared_declare ..)
  | hoists other => exact Register.isDeclared_declare ..
  | catches other => exact Register.isDeclared_declare ..

theorem writesLeft_apply (r : Register) (e : Event) (key : Key) :
    (e.apply r).writesLeft key = r.writesLeft key - (e.writes key).toNat := by
  have hwrite : ∀ other, ((r.declare other).consume other).writesLeft key =
      r.writesLeft key - (decide (other = key)).toNat := by
    intro other
    rw [Register.writesLeft_consume, Register.writesLeft_declare]
    by_cases h : other = key
    · rw [if_pos h.symm, decide_eq_true h, Bool.toNat_true]
    · rw [if_neg (Ne.symm h), decide_eq_false h, Bool.toNat_false]
  cases e with
  | declares other isConst => exact hwrite other
  | assigns other => exact hwrite other
  | hoists other => exact Register.writesLeft_declare ..
  | catches other => exact Register.writesLeft_declare ..

/-- A binding that is declared by `const` or `let` has a name and was not declared before. -/
theorem Allowed.declaration (h : e.Allowed r) (hdeclaration : e.isDeclaration = true) :
    (r.name? e.key).isSome ∧ r.isDeclared e.key = false := by
  cases e with
  | declares key isConst => exact ⟨h.1, h.2.1⟩
  | hoists key => exact h
  | assigns key => cases hdeclaration
  | catches key => cases hdeclaration

end Event

/-! ### One after another -/

/-- Statements that are written one after another. -/
inductive Follows : Register → List Event → Register → Prop
  | nil (r : Register) : Follows r [] r
  | cons {r r' : Register} {e : Event} {es : List Event} : e.Allowed r →
      Follows (e.apply r) es r' → Follows r (e :: es) r'

namespace Follows

variable {r r' r'' : Register} {e : Event} {es es' pre post : List Event} {key : Key}

theorem single (h : e.Allowed r) : Follows r [e] (e.apply r) := .cons h (.nil _)

theorem append (h : Follows r es r') (h' : Follows r' es' r'') : Follows r (es ++ es') r'' := by
  induction h with
  | nil => exact h'
  | cons hallowed _ ih => exact .cons hallowed (ih h')

theorem of_append (h : Follows r (pre ++ post) r') :
    ∃ middle, Follows r pre middle ∧ Follows middle post r' := by
  induction pre generalizing r with
  | nil => exact ⟨r, .nil r, h⟩
  | cons e pre ih =>
      cases h with
      | cons hallowed hrest =>
          obtain ⟨middle, hpre, hpost⟩ := ih hrest
          exact ⟨middle, .cons hallowed hpre, hpost⟩

/-- Names never change. -/
theorem name? (h : Follows r es r') (key : Key) : r'.name? key = r.name? key := by
  induction h with
  | nil => rfl
  | cons _ _ ih => rw [ih, Event.name?_apply]

/-- A binding is declared if it was so, or if a statement is about it. -/
theorem isDeclared (h : Follows r es r') (key : Key) :
    r'.isDeclared key = (r.isDeclared key || (es.any (·.key = key) && (r.name? key).isSome)) := by
  induction h with
  | nil => simp
  | @cons r _ e es _ _ ih =>
      rw [ih, Event.isDeclared_apply, Event.name?_apply, List.any_cons]
      cases r.isDeclared key <;> cases (r.name? key).isSome <;> simp [eq_comm]

/-- Every write comes off the count of its binding. -/
theorem writesLeft (h : Follows r es r') (key : Key) :
    r'.writesLeft key = r.writesLeft key - es.countP (Event.writes key) := by
  induction h with
  | nil => simp
  | @cons r _ e es _ _ ih =>
      rw [ih, Event.writesLeft_apply, List.countP_cons, Nat.sub_sub, Nat.add_comm]
      cases e.writes key <;> rfl

/-- A declaration by `const` or `let` is the first statement about its binding. -/
theorem first (h : Follows r (pre ++ e :: post) r') (hdeclaration : e.isDeclaration = true) :
    r.isDeclared e.key = false ∧ ∀ earlier ∈ pre, earlier.key ≠ e.key := by
  obtain ⟨middle, hpre, hpost⟩ := h.of_append
  cases hpost with
  | cons hallowed _ =>
      obtain ⟨hname, hfresh⟩ := hallowed.declaration hdeclaration
      rw [hpre.name?] at hname
      rw [hpre.isDeclared, hname, Bool.and_true, Bool.or_eq_false_iff] at hfresh
      refine ⟨hfresh.1, fun earlier hearlier hkey => ?_⟩
      exact Bool.eq_false_iff.mp hfresh.2
        (List.any_eq_true.mpr ⟨earlier, hearlier, decide_eq_true hkey⟩)

/-- An assignment comes after a statement that declares its binding, unless the binding was declared
before all statements. -/
theorem declared (h : Follows r (pre ++ .assigns key :: post) r') :
    r.isDeclared key = true ∨ ∃ earlier ∈ pre, earlier.key = key ∧ earlier ≠ .assigns key := by
  obtain ⟨middle, hpre, hpost⟩ := h.of_append
  have hmiddle : middle.isDeclared key = true := by
    cases hpost with
    | cons hallowed _ => exact hallowed
  -- Going on from one statement to the next, the binding comes to be declared at some point.
  clear h hpost
  induction hpre with
  | nil => exact .inl hmiddle
  | @cons r _ e es hallowed _ ih =>
      rcases ih hmiddle with hdeclared | ⟨earlier, hearlier, hkey⟩
      · by_cases he : e = .assigns key
        · rw [he] at hallowed
          exact .inl hallowed
        · rw [Event.isDeclared_apply, Bool.or_eq_true, Bool.and_eq_true, decide_eq_true_iff]
            at hdeclared
          refine hdeclared.imp_right fun hkey => ?_
          exact ⟨e, List.mem_cons_self, hkey.1.symm, he⟩
      · exact .inr ⟨earlier, List.mem_cons_of_mem _ hearlier, hkey⟩

/-- If a binding is written at most as often as was counted, it is not assigned to after it was
declared to be constant. -/
theorem constant (h : Follows r (pre ++ .declares key true :: post) r')
    (hcount : (pre ++ .declares key true :: post).countP (Event.writes key) ≤ r.writesLeft key) :
    .assigns key ∉ post := by
  intro hmem
  -- The declaration comes first, so nothing has been counted before it; it is allowed to be
  -- constant with one write left, but it and the assignment are two.
  have hpre : pre.countP (Event.writes key) = 0 := by
    refine List.countP_eq_zero.mpr fun earlier hearlier hwrites => ?_
    refine (h.first rfl).2 earlier hearlier ?_
    cases earlier with
    | declares other isConst => exact of_decide_eq_true hwrites
    | assigns other => exact of_decide_eq_true hwrites
    | hoists other => cases hwrites
    | catches other => cases hwrites
  have hpost : 0 < post.countP (Event.writes key) :=
    List.countP_pos_iff.mpr ⟨.assigns key, hmem, decide_eq_true rfl⟩
  obtain ⟨middle, hbefore, hafter⟩ := h.of_append
  have hleft : middle.writesLeft key ≤ 1 := by
    cases hafter with
    | cons hallowed _ => exact hallowed.2.2 rfl
  rw [hbefore.writesLeft, hpre, Nat.sub_zero] at hleft
  have hself : Event.writes key (.declares key true) = true := decide_eq_true rfl
  rw [List.countP_append, hpre, List.countP_cons_of_pos hself] at hcount
  omega

end Follows

end Unroll

end Unchain
