import Unchain.Printer.Print
import Unchain.Proofs.Token.Printed

/-!
# Terms

The expressions that are made of names and operators alone, with parentheses as
a construct of their own. A term has its text without any choice
(`Term.text`); the parentheses that its text needs are put in by
`Term.grouped`, and then every operand binds as tight as its place asks for
(`Term.tight_grouped`).
-/

namespace Unchain

open Printer
open Syntax (UnaryKind)
open Token (Kind)

/-- A name that is no word of the language. -/
structure PlainName where
  text : String
  isName : Token.isName text = true
  isPlain : Kind.keyword? text = none

theorem PlainName.eq_of_text_eq {x y : PlainName} (h : x.text = y.text) : x = y := by
  cases x
  cases y
  cases h
  rfl

namespace Term

/-- The operators with two operands. -/
def operators : List Kind := .comma :: Kind.assignments ++ Token.tightOperators

/-- The signs before an operand. -/
def signs : List Kind := [.plus, .minus, .tilde, .exclamation, .plusPlus, .minusMinus]

/-- The signs after an operand. -/
def suffixes : List Kind := [.plusPlus, .minusMinus]

/-- The words before an operand. -/
def words : List UnaryKind := [.await, .typeof, .void, .delete]

end Term

/-- An expression of names and operators. -/
inductive Term where
  | name (x : PlainName)
  | binary (left : Term) (operator : { k // k ∈ Term.operators }) (right : Term)
  | conditional (condition whenTrue whenFalse : Term)
  | prefixed (sign : { k // k ∈ Term.signs }) (operand : Term)
  | suffixed (sign : { k // k ∈ Term.suffixes }) (operand : Term)
  | word (kind : { k // k ∈ Term.words }) (operand : Term)
  | call (callee : Term) (arguments : List Term)
  | property (e : Term) (member : PlainName)
  | element (e index : Term)
  | parenthesized (e : Term)

namespace Term

/-! ### Levels and text -/

/-- How tight a term binds. -/
def level : Term → Nat
  | .binary _ operator _ => Level.ofOperator operator
  | .conditional .. => Level.conditional
  | .prefixed .. | .word .. => Level.unary
  | .suffixed .. => Level.suffix
  | .call .. | .property .. | .element .. => Level.leftHand
  | .name _ | .parenthesized _ => Level.primary

/-- An operator between its operands. -/
def infixText (operator : Kind) : List Char :=
  if operator = .comma then [',', ' '] else ' ' :: (operator.spelling ++ [' '])

/-- What keeps a sign apart from a sign that its operand starts with. -/
def gap (sign : Kind) : Term → List Char
  | .prefixed inner _ => if Env.fuses sign inner then [' '] else []
  | _ => []

mutual

/-- The text of a term. -/
def text : Term → List Char
  | .name x => x.text.toList
  | .binary left operator right => left.text ++ (infixText operator ++ right.text)
  | .conditional condition whenTrue whenFalse =>
    condition.text ++
      (' ' :: '?' :: ' ' :: (whenTrue.text ++ (' ' :: ':' :: ' ' :: whenFalse.text)))
  | .prefixed sign operand => sign.val.spelling ++ (gap sign operand ++ operand.text)
  | .suffixed sign operand => operand.text ++ sign.val.spelling
  | .word kind operand => (Env.unaryWord kind).toList ++ (' ' :: operand.text)
  | .call callee arguments => callee.text ++ ('(' :: (argumentsText arguments ++ [')']))
  | .property e member => e.text ++ ('.' :: member.text.toList)
  | .element e index => e.text ++ ('[' :: (index.text ++ [']']))
  | .parenthesized e => '(' :: (e.text ++ [')'])

/-- The text of arguments, with commas between them. -/
def argumentsText : List Term → List Char
  | [] => []
  | [a] => a.text
  | a :: b :: rest => a.text ++ (',' :: ' ' :: argumentsText (b :: rest))

end

/-! ### Parentheses -/

/-- A term in parentheses if it binds looser than `level`. -/
def within (level : Nat) (e : Term) : Term :=
  if e.level < level then .parenthesized e else e

mutual

/-- A term with all parentheses that its text needs. -/
def grouped : Term → Term
  | .name x => .name x
  | .binary left operator right =>
    .binary (left.grouped.within (Env.sideLevels operator).1) operator
      (right.grouped.within (Env.sideLevels operator).2)
  | .conditional condition whenTrue whenFalse =>
    .conditional (condition.grouped.within Level.coalesce)
      (whenTrue.grouped.within Level.assignment) (whenFalse.grouped.within Level.assignment)
  | .prefixed sign operand => .prefixed sign (operand.grouped.within Level.unary)
  | .suffixed sign operand => .suffixed sign (operand.grouped.within Level.leftHand)
  | .word kind operand => .word kind (operand.grouped.within Level.unary)
  | .call callee arguments =>
    .call (callee.grouped.within Level.leftHand) (groupedArguments arguments)
  | .property e member => .property (e.grouped.within Level.leftHand) member
  | .element e index => .element (e.grouped.within Level.leftHand) index.grouped
  | .parenthesized e => .parenthesized e.grouped

/-- Arguments with all parentheses that their text needs. -/
def groupedArguments : List Term → List Term
  | [] => []
  | a :: rest => a.grouped.within Level.assignment :: groupedArguments rest

end

mutual

/-- A term without its parentheses. -/
def bare : Term → Term
  | .name x => .name x
  | .binary left operator right => .binary left.bare operator right.bare
  | .conditional condition whenTrue whenFalse =>
    .conditional condition.bare whenTrue.bare whenFalse.bare
  | .prefixed sign operand => .prefixed sign operand.bare
  | .suffixed sign operand => .suffixed sign operand.bare
  | .word kind operand => .word kind operand.bare
  | .call callee arguments => .call callee.bare (bareArguments arguments)
  | .property e member => .property e.bare member
  | .element e index => .element e.bare index.bare
  | .parenthesized e => e.bare

/-- Arguments without their parentheses. -/
def bareArguments : List Term → List Term
  | [] => []
  | a :: rest => a.bare :: bareArguments rest

end

theorem bareArguments_eq (arguments : List Term) :
    bareArguments arguments = arguments.map bare := by
  induction arguments with
  | nil => rfl
  | cons a rest ih => rw [bareArguments, ih, List.map_cons]

/-! ### Nesting and height -/

mutual

/-- How many guarded rules a reader of the text has open at once inside of the rule that reads the
whole: one for what stands in parentheses or brackets, for an argument, for what is assigned and
for a branch of a choice. -/
def nesting : Term → Nat
  | .name _ => 0
  | .binary left operator right =>
    max left.nesting (if operator.val.isAssignment then right.nesting + 1 else right.nesting)
  | .conditional condition whenTrue whenFalse =>
    max condition.nesting (max whenTrue.nesting whenFalse.nesting + 1)
  | .prefixed _ operand | .suffixed _ operand | .word _ operand => operand.nesting
  | .call callee arguments => max callee.nesting (argumentsNesting arguments)
  | .property e _ => e.nesting
  | .element e index => max e.nesting (index.nesting + 1)
  | .parenthesized e => e.nesting + 1

/-- The same for arguments. -/
def argumentsNesting : List Term → Nat
  | [] => 0
  | a :: rest => max (a.nesting + 1) (argumentsNesting rest)

end

mutual

/-- How many terms stand on the longest way down. -/
def height : Term → Nat
  | .name _ => 1
  | .binary left _ right => max left.height right.height + 1
  | .conditional condition whenTrue whenFalse =>
    max condition.height (max whenTrue.height whenFalse.height) + 1
  | .prefixed _ operand | .suffixed _ operand | .word _ operand => operand.height + 1
  | .call callee arguments => max callee.height (argumentsHeight arguments) + 1
  | .property e _ | .parenthesized e => e.height + 1
  | .element e index => max e.height index.height + 1

/-- The same for arguments. -/
def argumentsHeight : List Term → Nat
  | [] => 0
  | a :: rest => max a.height (argumentsHeight rest)

end

theorem height_pos (e : Term) : 0 < e.height := by
  cases e <;> simp [height]

theorem height_le_argumentsHeight {arguments : List Term} {a : Term} (h : a ∈ arguments) :
    a.height ≤ argumentsHeight arguments := by
  induction arguments with
  | nil => cases h
  | cons b rest ih =>
    simp only [argumentsHeight]
    rcases List.mem_cons.mp h with rfl | h
    · omega
    · have := ih h
      omega

/-- One of the arguments is as high as they all are. -/
theorem exists_height_eq_argumentsHeight {arguments : List Term} (h : arguments ≠ []) :
    ∃ a ∈ arguments, a.height = argumentsHeight arguments := by
  induction arguments with
  | nil => exact absurd rfl h
  | cons a rest ih =>
    simp only [argumentsHeight]
    rcases Nat.le_total (argumentsHeight rest) a.height with hle | hle
    · exact ⟨a, List.mem_cons_self, by omega⟩
    · have hrest : rest ≠ [] := by
        rintro rfl
        have := a.height_pos
        simp only [argumentsHeight] at hle
        omega
      obtain ⟨b, hb, hheight⟩ := ih hrest
      exact ⟨b, List.mem_cons_of_mem a hb, by omega⟩

/-! ### Terms whose text groups as they do -/

/-- Every operand binds as tight as its place asks for. -/
inductive Tight : Term → Prop where
  | name (x : PlainName) : Tight (.name x)
  | binary {left right : Term} {operator : { k // k ∈ operators }} (hleft : Tight left)
      (hright : Tight right) (hl : (Env.sideLevels operator).1 ≤ left.level)
      (hr : (Env.sideLevels operator).2 ≤ right.level) : Tight (.binary left operator right)
  | conditional {condition whenTrue whenFalse : Term} (hcondition : Tight condition)
      (htrue : Tight whenTrue) (hfalse : Tight whenFalse)
      (hc : Level.coalesce ≤ condition.level) (ht : Level.assignment ≤ whenTrue.level)
      (hf : Level.assignment ≤ whenFalse.level) :
      Tight (.conditional condition whenTrue whenFalse)
  | prefixed {sign : { k // k ∈ signs }} {operand : Term} (hoperand : Tight operand)
      (hl : Level.unary ≤ operand.level) : Tight (.prefixed sign operand)
  | suffixed {sign : { k // k ∈ suffixes }} {operand : Term} (hoperand : Tight operand)
      (hl : Level.leftHand ≤ operand.level) : Tight (.suffixed sign operand)
  | word {kind : { k // k ∈ words }} {operand : Term} (hoperand : Tight operand)
      (hl : Level.unary ≤ operand.level) : Tight (.word kind operand)
  | call {callee : Term} {arguments : List Term} (hcallee : Tight callee)
      (hl : Level.leftHand ≤ callee.level) (harguments : ∀ a ∈ arguments, Tight a)
      (hlevels : ∀ a ∈ arguments, Level.assignment ≤ a.level) : Tight (.call callee arguments)
  | property {e : Term} {member : PlainName} (he : Tight e) (hl : Level.leftHand ≤ e.level) :
      Tight (.property e member)
  | element {e index : Term} (he : Tight e) (hl : Level.leftHand ≤ e.level)
      (hindex : Tight index) : Tight (.element e index)
  | parenthesized {e : Term} (he : Tight e) : Tight (.parenthesized e)

theorem tight_within {e : Term} (h : e.Tight) (level : Nat) : (e.within level).Tight := by
  unfold within
  split
  · exact .parenthesized h
  · exact h

theorem operator_level_le (operator : { k // k ∈ operators }) :
    Level.ofOperator operator ≤ Level.exponent := by
  have h : ∀ k ∈ operators, Level.ofOperator k ≤ Level.exponent := by decide
  exact h operator operator.property

theorem sideLevels_le (operator : { k // k ∈ operators }) :
    (Env.sideLevels operator).1 ≤ Level.leftHand ∧ (Env.sideLevels operator).2 ≤ Level.unary := by
  have h : ∀ k ∈ operators, (Env.sideLevels k).1 ≤ Level.leftHand ∧
      (Env.sideLevels k).2 ≤ Level.unary := by decide
  exact h operator operator.property

/-- Nothing binds looser than a comma. -/
theorem within_comma (e : Term) : e.within Level.comma = e := if_neg (Nat.not_lt_zero _)

/-- Parentheses make a term as tight as any place asks for. -/
theorem le_level_within (e : Term) {level : Nat} (h : level ≤ Level.primary) :
    level ≤ (e.within level).level := by
  unfold within
  split
  · exact h
  · omega

mutual

theorem tight_grouped : ∀ e : Term, e.grouped.Tight
  | .name x => .name x
  | .binary left operator right => by
    obtain ⟨hl, hr⟩ := sideLevels_le operator
    exact .binary (tight_within (tight_grouped left) _) (tight_within (tight_grouped right) _)
      (le_level_within _ (Nat.le_trans hl (by decide)))
      (le_level_within _ (Nat.le_trans hr (by decide)))
  | .conditional condition whenTrue whenFalse =>
    .conditional (tight_within (tight_grouped condition) _)
      (tight_within (tight_grouped whenTrue) _) (tight_within (tight_grouped whenFalse) _)
      (le_level_within _ (by decide)) (le_level_within _ (by decide))
      (le_level_within _ (by decide))
  | .prefixed _ operand =>
    .prefixed (tight_within (tight_grouped operand) _) (le_level_within _ (by decide))
  | .suffixed _ operand =>
    .suffixed (tight_within (tight_grouped operand) _) (le_level_within _ (by decide))
  | .word _ operand =>
    .word (tight_within (tight_grouped operand) _) (le_level_within _ (by decide))
  | .call callee arguments =>
    .call (tight_within (tight_grouped callee) _) (le_level_within _ (by decide))
      (fun a ha => (tight_groupedArguments arguments a ha).1)
      fun a ha => (tight_groupedArguments arguments a ha).2
  | .property e _ =>
    .property (tight_within (tight_grouped e) _) (le_level_within _ (by decide))
  | .element e index =>
    .element (tight_within (tight_grouped e) _) (le_level_within _ (by decide))
      (tight_grouped index)
  | .parenthesized e => .parenthesized (tight_grouped e)

theorem tight_groupedArguments : ∀ arguments : List Term,
    ∀ a ∈ groupedArguments arguments, a.Tight ∧ Level.assignment ≤ a.level
  | [], a, ha => nomatch ha
  | b :: rest, a, ha => by
    rcases List.mem_cons.mp ha with rfl | ha
    · exact ⟨tight_within (tight_grouped b) _, le_level_within _ (by decide)⟩
    · exact tight_groupedArguments rest a ha

end

@[simp] theorem level_grouped (e : Term) : e.grouped.level = e.level := by
  cases e <;> rfl

theorem bare_within (level : Nat) (e : Term) : (e.within level).bare = e.bare := by
  unfold within
  split
  · simp only [bare]
  · rfl

mutual

/-- The parentheses that are put in are all that is put in. -/
theorem bare_grouped : ∀ e : Term, e.grouped.bare = e.bare
  | .name x => rfl
  | .binary left operator right => by
    simp only [grouped, bare, bare_within, bare_grouped left, bare_grouped right]
  | .conditional condition whenTrue whenFalse => by
    simp only [grouped, bare, bare_within, bare_grouped condition, bare_grouped whenTrue,
      bare_grouped whenFalse]
  | .prefixed _ operand | .suffixed _ operand | .word _ operand => by
    simp only [grouped, bare, bare_within, bare_grouped operand]
  | .call callee arguments => by
    simp only [grouped, bare, bare_within, bare_grouped callee, bare_groupedArguments arguments]
  | .property e _ => by simp only [grouped, bare, bare_within, bare_grouped e]
  | .element e index => by
    simp only [grouped, bare, bare_within, bare_grouped e, bare_grouped index]
  | .parenthesized e => by simp only [grouped, bare, bare_grouped e]

theorem bare_groupedArguments : ∀ arguments : List Term,
    bareArguments (groupedArguments arguments) = bareArguments arguments
  | [] => rfl
  | a :: rest => by
    simp only [groupedArguments, bareArguments, bare_within, bare_grouped a,
      bare_groupedArguments rest]

end

end Term

end Unchain
