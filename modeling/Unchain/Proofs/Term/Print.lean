import Unchain.Proofs.Term.Represents

/-!
# The text that is printed for a term

A printer writes the text of the grouped term (`Term.writes_pieces`), and lays
nothing out: an expression is on one line.
-/

namespace Unchain

open Printer
open Syntax (Data Node NodeId NodeList Tree)
open Token (Kind)

namespace Printer

/-- The pieces are text alone, which is `cs`. -/
def Writes (pieces : List Piece) (cs : List Char) : Prop :=
  ∃ ss : List String, pieces = ss.map .text ∧ ss.flatMap String.toList = cs

variable {ps qs : List Piece} {as bs : List Char}

theorem Writes.nil : Writes [] [] := ⟨[], rfl, rfl⟩

theorem Writes.text (s : String) : Writes [.text s] s.toList := ⟨[s], rfl, by simp⟩

theorem Writes.append (hp : Writes ps as) (hq : Writes qs bs) : Writes (ps ++ qs) (as ++ bs) := by
  obtain ⟨ss, rfl, rfl⟩ := hp
  obtain ⟨ts, rfl, rfl⟩ := hq
  exact ⟨ss ++ ts, by simp, by simp⟩

theorem Writes.cons (s : String) (h : Writes ps as) : Writes (.text s :: ps) (s.toList ++ as) :=
  (Writes.text s).append h

/-- Text on a line is written as it is. -/
theorem output_foldl_put (ss : List String) {w : Writer} (h : w.atLineStart = false) :
    ((ss.map Piece.text).foldl Writer.put w).output =
      w.output ++ String.ofList (ss.flatMap String.toList) := by
  induction ss generalizing w with
  | nil => simp
  | cons s ss ih =>
    have hput : (w.put (.text s)).atLineStart = false ∧
        (w.put (.text s)).output = w.output ++ s := by
      simp only [Writer.put, Writer.write]
      split
      · next hs =>
        obtain rfl := String.isEmpty_iff.mp hs
        exact ⟨h, by simp⟩
      · simp [h]
    rw [List.map_cons, List.foldl_cons, ih hput.1, hput.2]
    simp [String.append_assoc]

theorem Writes.render (h : Writes ps as) (layout : Layout) :
    Printer.render layout ps = String.ofList as := by
  obtain ⟨ss, rfl, rfl⟩ := h
  rw [Printer.render, output_foldl_put ss rfl]
  simp

end Printer

namespace Term

variable {t : Tree} {id : Option NodeId} {e : Term} {p : Env} {level fuel : Nat}

/-! ### What the printer asks of a node -/

/-- The node of a term binds as tight as the term. -/
theorem level_ofData (h : Represents t.part? id e) :
    ∃ d, t.partData? id = some d ∧ Level.ofData d = e.level := by
  cases h with
  | @word _ operand _ kind h =>
    have hwords : ∀ k ∈ words, Level.ofData (.unary k operand) = Level.unary := by
      simp [words, Level.ofData]
    exact ⟨_, h.partData?, hwords kind kind.property⟩
  | name h | binary h | conditional h | prefixed h | suffixed h | call h | property h
  | element h | parenthesized h => exact ⟨_, h.partData?, rfl⟩

/-- No term starts like a declaration. -/
theorem startsLikeDeclaration_eq_false (h : Represents t.part? id e) :
    (t.partData? id).any Env.startsLikeDeclaration = false := by
  cases h with
  | name h | binary h | conditional h | prefixed h | suffixed h | word h | call h | property h
  | element h | parenthesized h => rw [h.partData?]; rfl

/-- No term is a number. -/
theorem isBareInteger_eq_false (h : Represents t.part? id e) :
    (t.partData? id).any Env.isBareInteger = false := by
  cases h with
  | name h | binary h | conditional h | prefixed h | suffixed h | word h | call h | property h
  | element h | parenthesized h => rw [h.partData?]; rfl

/-- What the text of a term starts with is a term. -/
theorem exists_leftPart {next : NodeId} (h : Represents t.part? id e)
    (hnext : (t.partData? id).bind leftPart = some next) :
    ∃ e', Represents t.part? (some next) e' := by
  cases h with
  | @binary _ left _ _ _ _ h hl =>
    obtain rfl : left = some next := by rwa [h.partData?] at hnext
    exact ⟨_, hl⟩
  | @conditional _ condition _ _ _ _ _ h hc =>
    obtain rfl : condition = some next := by rwa [h.partData?] at hnext
    exact ⟨_, hc⟩
  | @suffixed _ operand _ _ h he =>
    obtain rfl : operand = some next := by rwa [h.partData?] at hnext
    exact ⟨_, he⟩
  | @call _ callee _ _ _ h _ hf =>
    obtain rfl : callee = some next := by rwa [h.partData?] at hnext
    exact ⟨_, hf⟩
  | @property _ object _ _ _ h he | @element _ object _ _ _ h he =>
    obtain rfl : object = some next := by rwa [h.partData?] at hnext
    exact ⟨_, he⟩
  | @word _ operand _ kind h =>
    have hwords : ∀ k ∈ words, leftPart (.unary k operand) = none := by simp [words, leftPart]
    rw [h.partData?, Option.bind_some, hwords kind kind.property] at hnext
    cases hnext
  | name h | prefixed h | parenthesized h =>
    rw [h.partData?] at hnext
    cases hnext

theorem exists_leftmost (h : Represents t.part? id e) :
    ∃ e', Represents t.part? (leftmost t id) e' := by
  unfold leftmost
  generalize t.size + 1 = fuel
  induction fuel generalizing id e with
  | zero => exact ⟨e, h⟩
  | succ fuel ih =>
    rw [leftmost.go]
    split
    · next next heq =>
      obtain ⟨e', h'⟩ := exists_leftPart h heq
      exact ih h'
    · exact ⟨e, h⟩

/-! ### Pieces -/

/-- A part is printed by its node. -/
theorem pieces_succ {d : Data} (h : Holds t.part? id d) (fuel : Nat) :
    ∃ node, node.data = d ∧ node.flags.optionalChain = false ∧
      pieces t (fuel + 1) id = nodePieces ⟨t, pieces t fuel⟩ node := by
  obtain ⟨node, hnode, hd, hf⟩ := h
  exact ⟨node, hd, hf, by rw [pieces, hnode]⟩

@[simp] theorem pieces_none (t : Tree) (fuel : Nat) : pieces t fuel none = [] := by
  cases fuel <;> rfl

theorem writes_name {x : PlainName} (h : Holds t.part? id (.identifier x.text)) (hfuel : 0 < fuel) :
    Writes (pieces t fuel id) x.text.toList := by
  obtain ⟨fuel, rfl⟩ : ∃ n, fuel = n + 1 := ⟨fuel - 1, by omega⟩
  obtain ⟨node, hd, -, hpieces⟩ := pieces_succ h fuel
  rw [hpieces, nodePieces, hd]
  exact .text _

/-- An operand is printed in parentheses if it binds too loose. -/
theorem writes_operand (h : Represents t.part? id e) (level : Nat)
    (hw : Writes (pieces t fuel id) e.grouped.text) :
    Writes (Env.operand ⟨t, pieces t fuel⟩ level id) (e.grouped.within level).text := by
  obtain ⟨d, hd, hlevel⟩ := level_ofData h
  simp only [Env.operand, hd, hlevel, within, level_grouped]
  split
  · simp only [text]
    exact Writes.cons "(" (hw.append (.text ")"))
  · exact hw

theorem writes_receiver (h : Represents t.part? id e)
    (hw : Writes (pieces t fuel id) e.grouped.text) :
    Writes (Env.receiver ⟨t, pieces t fuel⟩ id) (e.grouped.within Level.leftHand).text := by
  rw [Env.receiver, isBareInteger_eq_false h]
  exact writes_operand h _ hw

theorem writes_arguments {nodes : List NodeId} {arguments : List Term}
    (hlength : nodes.length = arguments.length)
    (h : ∀ p ∈ nodes.zip arguments, Represents t.part? (some p.1) p.2 ∧
      Writes (pieces t fuel (some p.1)) p.2.grouped.text) :
    Writes (Env.arguments ⟨t, pieces t fuel⟩ nodes)
      (argumentsText (groupedArguments arguments)) := by
  unfold Env.arguments
  induction nodes generalizing arguments with
  | nil =>
    rw [List.length_eq_zero_iff.mp hlength.symm]
    exact .nil
  | cons id nodes ih =>
    cases arguments with
    | nil => cases hlength
    | cons a rest =>
      rw [List.zip_cons_cons, List.forall_mem_cons] at h
      have ha := writes_operand h.1.1 Level.assignment h.1.2
      have hrest := ih (Nat.succ.inj hlength) h.2
      cases nodes with
      | nil =>
        obtain rfl := List.length_eq_zero_iff.mp (Nat.succ.inj hlength).symm
        exact ha
      | cons id' nodes =>
        cases rest with
        | nil => cases hlength
        | cons b rest => exact ha.append (Writes.cons ", " hrest)

theorem writes_infixText (operator : Kind) :
    Writes (if operator = .comma then [.text ", "]
      else [.text " ", .text (Env.operatorText operator), .text " "]) (infixText operator) := by
  unfold infixText
  split
  · exact .text ", "
  · exact Writes.cons " " (Writes.cons _ (.text " "))

theorem gap_within (sign : Kind) (level : Nat) (h : ∀ inner operand, e ≠ .prefixed inner operand) :
    gap sign (e.within level) = [] := by
  unfold within
  split
  · rfl
  · cases e with
    | prefixed inner operand => exact absurd rfl (h inner operand)
    | _ => rfl

/-- Two signs that would be read as one are kept apart. -/
theorem writes_gap (h : Represents t.part? id e) (sign : Kind) :
    Writes (match t.partData? id with
      | some (.prefixed inner _) => if Env.fuses sign inner then [.text " "] else []
      | _ => []) (gap sign (e.grouped.within Level.unary)) := by
  cases h with
  | @prefixed _ operand e inner h =>
    rw [h.partData?]
    simp only [grouped, within, level, gap, Nat.lt_irrefl, if_false]
    split
    · exact .text " "
    · exact .nil
  | name h | binary h | conditional h | suffixed h | word h | call h | property h
  | element h | parenthesized h =>
    rw [h.partData?, gap_within sign _ (by simp [grouped])]
    exact .nil

/-- The printer writes a term with the parentheses that its text needs. -/
theorem writes_pieces (h : Represents t.part? id e) (hfuel : e.height ≤ fuel) :
    Writes (pieces t fuel id) e.grouped.text := by
  -- Each layer of the term takes one unit of fuel and goes on with the rest for its parts.
  induction h generalizing fuel with
  | name h => exact writes_name h hfuel
  | @binary _ _ _ _ _ operator h hl hr ihl ihr =>
    simp only [height] at hfuel
    obtain ⟨fuel, rfl⟩ : ∃ n, fuel = n + 1 := ⟨fuel - 1, by omega⟩
    obtain ⟨node, hd, -, hpieces⟩ := pieces_succ h fuel
    simp only [hpieces, nodePieces, hd, Env.binary, grouped, text]
    have hl' := writes_operand hl (Env.sideLevels operator).1 (@ihl fuel (by omega))
    have hr' := writes_operand hr (Env.sideLevels operator).2 (@ihr fuel (by omega))
    simpa using (hl'.append (writes_infixText operator)).append hr'
  | conditional h hc ht hf ihc iht ihf =>
    simp only [height] at hfuel
    obtain ⟨fuel, rfl⟩ : ∃ n, fuel = n + 1 := ⟨fuel - 1, by omega⟩
    obtain ⟨node, hd, -, hpieces⟩ := pieces_succ h fuel
    simp only [hpieces, nodePieces, hd, Env.conditional, grouped, text]
    have hc' := writes_operand hc Level.coalesce (@ihc fuel (by omega))
    have ht' := writes_operand ht Level.assignment (@iht fuel (by omega))
    have hf' := writes_operand hf Level.assignment (@ihf fuel (by omega))
    simpa using (hc'.append (Writes.cons " ? " ht')).append (Writes.cons " : " hf')
  | @prefixed _ _ _ sign h he ih =>
    simp only [height] at hfuel
    obtain ⟨fuel, rfl⟩ : ∃ n, fuel = n + 1 := ⟨fuel - 1, by omega⟩
    obtain ⟨node, hd, -, hpieces⟩ := pieces_succ h fuel
    simp only [hpieces, nodePieces, hd, Env.prefixed, grouped, text]
    exact Writes.cons _ ((writes_gap he sign).append (writes_operand he _ (ih (by omega))))
  | suffixed h he ih =>
    simp only [height] at hfuel
    obtain ⟨fuel, rfl⟩ : ∃ n, fuel = n + 1 := ⟨fuel - 1, by omega⟩
    obtain ⟨node, hd, -, hpieces⟩ := pieces_succ h fuel
    simp only [hpieces, nodePieces, hd, grouped, text]
    exact (writes_operand he _ (ih (by omega))).append (.text _)
  | @word _ operand _ kind h he ih =>
    simp only [height] at hfuel
    obtain ⟨fuel, rfl⟩ : ∃ n, fuel = n + 1 := ⟨fuel - 1, by omega⟩
    obtain ⟨node, hd, -, hpieces⟩ := pieces_succ h fuel
    have hwords : ∀ k ∈ words, Env.unary ⟨t, pieces t fuel⟩ k operand =
        .text (Env.unaryWord k) :: .text " " ::
          Env.operand ⟨t, pieces t fuel⟩ Level.unary operand := by
      simp [words, Env.unary]
    simp only [hpieces, nodePieces, hd, hwords kind kind.property, grouped, text]
    exact Writes.cons _ (Writes.cons " " (writes_operand he _ (ih (by omega))))
  | @call _ _ _ _ arguments h _ hf hlength ha ihf iha =>
    simp only [height] at hfuel
    obtain ⟨fuel, rfl⟩ : ∃ n, fuel = n + 1 := ⟨fuel - 1, by omega⟩
    obtain ⟨node, hd, hchain, hpieces⟩ := pieces_succ h fuel
    simp only [hpieces, nodePieces, hd, hchain, Env.call, Env.argumentList, grouped, text]
    have hf' := writes_receiver hf (@ihf fuel (by omega))
    have ha' := writes_arguments hlength fun p hp => ⟨ha p hp, @iha p hp fuel (by
      have := height_le_argumentsHeight (List.of_mem_zip hp).2
      omega)⟩
    simpa using hf'.append (Writes.cons "(" (ha'.append (.text ")")))
  | @property _ _ _ e _ h he hmember ih =>
    have := e.height_pos
    simp only [height] at hfuel
    obtain ⟨fuel, rfl⟩ : ∃ n, fuel = n + 1 := ⟨fuel - 1, by omega⟩
    obtain ⟨node, hd, -, hpieces⟩ := pieces_succ h fuel
    simp only [hpieces, nodePieces, hd, Env.access, grouped, text]
    exact (writes_receiver he (ih (by omega))).append
      (Writes.cons "." (writes_name hmember (by omega)))
  | element h he hi ihe ihi =>
    simp only [height] at hfuel
    obtain ⟨fuel, rfl⟩ : ∃ n, fuel = n + 1 := ⟨fuel - 1, by omega⟩
    obtain ⟨node, hd, -, hpieces⟩ := pieces_succ h fuel
    simp only [hpieces, nodePieces, hd, Env.access, grouped, text]
    have hi' := writes_operand hi Level.comma (@ihi fuel (by omega))
    rw [within_comma] at hi'
    have he' := writes_receiver he (@ihe fuel (by omega))
    simpa using he'.append (Writes.cons "[" (hi'.append (.text "]")))
  | parenthesized h he ih =>
    simp only [height] at hfuel
    obtain ⟨fuel, rfl⟩ : ∃ n, fuel = n + 1 := ⟨fuel - 1, by omega⟩
    obtain ⟨node, hd, -, hpieces⟩ := pieces_succ h fuel
    simp only [hpieces, nodePieces, hd, Env.parenthesized, grouped, text]
    exact Writes.cons "(" ((ih (by omega)).append (.text ")"))

/-- A statement that is a term is printed as the text of the term, in any layout. -/
theorem printNode_eq {statement : NodeId}
    (hstatement : t.data? statement = some (.expressionStatement .statement id))
    (h : Represents t.part? id e) (layout : Layout) :
    printNode t layout statement = String.ofList (e.grouped.text ++ [';']) := by
  obtain ⟨node, hnode, hd⟩ := Option.map_eq_some_iff.mp hstatement
  obtain ⟨e', h'⟩ := exists_leftmost h
  have hparentheses := startsLikeDeclaration_eq_false h'
  have hw := (writes_pieces h (height_le_size h)).append (.text ";")
  have hpart : t.part? (some statement) = some node := hnode
  rw [printNode, piecesOf, pieces, hpart]
  simp only [nodePieces, hd, Env.expressionStatement, hparentheses]
  exact hw.render layout

end Term

end Unchain
