import Flowsheet.Proofs.Formula.Grammar

set_option autoImplicit false

namespace Flowsheet.Formula

variable {N : Type}

inductive Halt where
  | fault (fault : Fault)
  | outOfRange (index : Nat)
deriving DecidableEq

def marked (ls : List (Lexeme N)) : List (Option (Lexeme N)) := ls.map some ++ [none]

def look (cells : List (Option (Lexeme N))) (index : Nat) : Except Halt (Option (Lexeme N)) :=
  match cells[index]? with
  | some cell => .ok cell
  | none => .error (.outOfRange index)

def pass (index : Nat) : Option (Lexeme N) → Nat
  | some _ => index + 1
  | none => index

def operatorAt (precedence : Nat) (cells : List (Option (Lexeme N))) (index : Nat) :
    Except Halt (Option Operator) :=
  match look cells index with
  | .error halt => .error halt
  | .ok (some ⟨.operator op, _, _⟩) => .ok (if op.precedence = precedence then some op else none)
  | .ok _ => .ok none

def faultOf (stop : Nat) (cell : Option (Lexeme N)) : Fault := faultAt stop cell.toList

def refuse {α : Type} (stop : Nat) (cells : List (Option (Lexeme N))) (index : Nat) : Except Halt α :=
  match look cells index with
  | .error halt => .error halt
  | .ok cell => .error (.fault (faultOf stop cell))

abbrev Moved (N : Type) := Except Halt (Formula N × Nat)

mutual

def sumAt (stop : Nat) (cells : List (Option (Lexeme N))) : Nat → Nat → Moved N
  | 0, index => refuse stop cells index
  | fuel + 1, index =>
    match productAt stop cells fuel index with
    | .error halt => .error halt
    | .ok (left, index) => sumFromAt stop cells fuel left index

def sumFromAt (stop : Nat) (cells : List (Option (Lexeme N))) : Nat → Formula N → Nat → Moved N
  | 0, _, index => refuse stop cells index
  | fuel + 1, left, index =>
    match operatorAt 1 cells index with
    | .error halt => .error halt
    | .ok none => .ok (left, index)
    | .ok (some op) =>
      match productAt stop cells fuel (index + 1) with
      | .error halt => .error halt
      | .ok (right, index) => sumFromAt stop cells fuel (.binary op left right) index

def productAt (stop : Nat) (cells : List (Option (Lexeme N))) : Nat → Nat → Moved N
  | 0, index => refuse stop cells index
  | fuel + 1, index =>
    match signedAt stop cells fuel index with
    | .error halt => .error halt
    | .ok (left, index) => productFromAt stop cells fuel left index

def productFromAt (stop : Nat) (cells : List (Option (Lexeme N))) : Nat → Formula N → Nat → Moved N
  | 0, _, index => refuse stop cells index
  | fuel + 1, left, index =>
    match operatorAt 2 cells index with
    | .error halt => .error halt
    | .ok none => .ok (left, index)
    | .ok (some op) =>
      match signedAt stop cells fuel (index + 1) with
      | .error halt => .error halt
      | .ok (right, index) => productFromAt stop cells fuel (.binary op left right) index

def signedAt (stop : Nat) (cells : List (Option (Lexeme N))) : Nat → Nat → Moved N
  | 0, index => refuse stop cells index
  | fuel + 1, index =>
    match operatorAt 1 cells index with
    | .error halt => .error halt
    | .ok (some op) =>
      match signedAt stop cells fuel (index + 1) with
      | .error halt => .error halt
      | .ok (body, index) => .ok (.signed (if op = .sub then .minus else .plus) body, index)
    | .ok none => primaryAt stop cells fuel index

def primaryAt (stop : Nat) (cells : List (Option (Lexeme N))) : Nat → Nat → Moved N
  | 0, index => refuse stop cells index
  | fuel + 1, index =>
    match look cells index with
    | .error halt => .error halt
    | .ok cell =>
      match cell with
      | some ⟨.number v, _, _⟩ => .ok (.number v, pass index cell)
      | some ⟨.name x, _, _⟩ => .ok (.name x, pass index cell)
      | some ⟨.openParen, _, offset⟩ =>
        match sumAt stop cells fuel (pass index cell) with
        | .error halt => .error halt
        | .ok (inner, index) =>
          match look cells index with
          | .error halt => .error halt
          | .ok (some ⟨.closeParen, text, offset⟩) =>
            .ok (inner, pass index (some (⟨.closeParen, text, offset⟩ : Lexeme N)))
          | .ok _ => .error (.fault (.unclosed offset))
      | cell => .error (.fault (faultOf stop cell))

end

def parseIndexed (stop : Nat) (ls : List (Lexeme N)) : Except Halt (Formula N) :=
  match sumAt stop (marked ls) (nesting ls) 0 with
  | .error halt => .error halt
  | .ok (e, index) =>
    match look (marked ls) index with
    | .error halt => .error halt
    | .ok none => .ok e
    | .ok cell => .error (.fault (faultOf stop cell))

inductive Follows (ls : List (Lexeme N)) : Parsed N → Moved N → Prop where
  | fault (f : Fault) : Follows ls (.error f) (.error (.fault f))
  | ok (e : Formula N) {index : Nat} (inside : index ≤ ls.length) :
      Follows ls (.ok (e, ls.drop index)) (.ok (e, index))

section Cells

variable {ls : List (Lexeme N)} {index : Nat}

theorem look_marked (inside : index ≤ ls.length) : look (marked ls) index = .ok (ls.drop index).head? := by
  have cell : (marked ls)[index]? = some (ls.drop index).head? := by
    rw [List.head?_drop]
    rcases Nat.lt_or_eq_of_le inside with before | rfl
    · simp [marked, List.getElem?_append_left, before]
    · simp [marked]
  simp [look, cell]

theorem drop_eq_cons {l : Lexeme N} {rest : List (Lexeme N)} (here : ls.drop index = l :: rest) :
    index + 1 ≤ ls.length ∧ ls.drop (index + 1) = rest := by
  have before : index < ls.length := by
    apply Nat.lt_of_not_le
    intro past
    rw [List.drop_of_length_le past] at here
    cases here
  rw [List.drop_eq_getElem_cons before] at here
  exact ⟨before, (List.cons.inj here).2⟩

theorem refuse_marked {α : Type} (stop : Nat) (inside : index ≤ ls.length) :
    (refuse stop (marked ls) index : Except Halt α) = .error (.fault (faultAt stop (ls.drop index))) := by
  rw [refuse, look_marked inside]
  cases ls.drop index <;> rfl

theorem operatorAt_marked (inside : index ≤ ls.length) :
    operatorAt 1 (marked ls) index = .ok ((additive? (ls.drop index)).map (·.1)) ∧
      operatorAt 2 (marked ls) index = .ok ((multiplicative? (ls.drop index)).map (·.1)) := by
  rw [operatorAt, operatorAt, look_marked inside]
  unfold additive? multiplicative?
  cases ls.drop index with
  | nil => exact ⟨rfl, rfl⟩
  | cons l rest =>
    obtain ⟨token, text, offset⟩ := l
    cases token with
    | operator op => cases op <;> exact ⟨rfl, rfl⟩
    | number | name | openParen | closeParen => exact ⟨rfl, rfl⟩

end Cells

structure Tracked (ls : List (Lexeme N)) (stop fuel : Nat) : Prop where
  sum : ∀ {index}, index ≤ ls.length →
    Follows ls (parseSum stop fuel (ls.drop index)) (sumAt stop (marked ls) fuel index)
  sumFrom : ∀ left {index}, index ≤ ls.length →
    Follows ls (sumFrom stop fuel left (ls.drop index)) (sumFromAt stop (marked ls) fuel left index)
  product : ∀ {index}, index ≤ ls.length →
    Follows ls (parseProduct stop fuel (ls.drop index)) (productAt stop (marked ls) fuel index)
  productFrom : ∀ left {index}, index ≤ ls.length →
    Follows ls (productFrom stop fuel left (ls.drop index)) (productFromAt stop (marked ls) fuel left index)
  signed : ∀ {index}, index ≤ ls.length →
    Follows ls (parseSigned stop fuel (ls.drop index)) (signedAt stop (marked ls) fuel index)
  primary : ∀ {index}, index ≤ ls.length →
    Follows ls (parsePrimary stop fuel (ls.drop index)) (primaryAt stop (marked ls) fuel index)

section Steps

variable {ls : List (Lexeme N)} {stop fuel index : Nat} {left : Formula N}

theorem Tracked.sum_step (tracked : Tracked ls stop fuel) (inside : index ≤ ls.length) :
    Follows ls (parseSum stop (fuel + 1) (ls.drop index)) (sumAt stop (marked ls) (fuel + 1) index) := by
  simp only [parseSum, sumAt]
  have first := tracked.product inside
  generalize parseProduct stop fuel (ls.drop index) = parsed, productAt stop (marked ls) fuel index = moved
    at first
  cases first with
  | fault f => exact .fault f
  | ok e further => exact tracked.sumFrom e further

theorem Tracked.product_step (tracked : Tracked ls stop fuel) (inside : index ≤ ls.length) :
    Follows ls (parseProduct stop (fuel + 1) (ls.drop index))
      (productAt stop (marked ls) (fuel + 1) index) := by
  simp only [parseProduct, productAt]
  have first := tracked.signed inside
  generalize parseSigned stop fuel (ls.drop index) = parsed, signedAt stop (marked ls) fuel index = moved
    at first
  cases first with
  | fault f => exact .fault f
  | ok e further => exact tracked.productFrom e further

theorem Tracked.sumFrom_step (tracked : Tracked ls stop fuel) (inside : index ≤ ls.length) :
    Follows ls (Formula.sumFrom stop (fuel + 1) left (ls.drop index))
      (sumFromAt stop (marked ls) (fuel + 1) left index) := by
  simp only [Formula.sumFrom, sumFromAt, (operatorAt_marked inside).1]
  cases found : additive? (ls.drop index) with
  | none => exact .ok left inside
  | some entry =>
    obtain ⟨op, rest⟩ := entry
    obtain ⟨-, text, offset, here⟩ := additive?_eq_some found
    obtain ⟨further, rfl⟩ := drop_eq_cons here
    simp only [Option.map_some]
    have operand := tracked.product further
    generalize parseProduct stop fuel (ls.drop (index + 1)) = parsed,
      productAt stop (marked ls) fuel (index + 1) = moved at operand
    cases operand with
    | fault f => exact .fault f
    | ok e after => exact tracked.sumFrom _ after

theorem Tracked.productFrom_step (tracked : Tracked ls stop fuel) (inside : index ≤ ls.length) :
    Follows ls (Formula.productFrom stop (fuel + 1) left (ls.drop index))
      (productFromAt stop (marked ls) (fuel + 1) left index) := by
  simp only [Formula.productFrom, productFromAt, (operatorAt_marked inside).2]
  cases found : multiplicative? (ls.drop index) with
  | none => exact .ok left inside
  | some entry =>
    obtain ⟨op, rest⟩ := entry
    obtain ⟨-, text, offset, here⟩ := multiplicative?_eq_some found
    obtain ⟨further, rfl⟩ := drop_eq_cons here
    simp only [Option.map_some]
    have operand := tracked.signed further
    generalize parseSigned stop fuel (ls.drop (index + 1)) = parsed,
      signedAt stop (marked ls) fuel (index + 1) = moved at operand
    cases operand with
    | fault f => exact .fault f
    | ok e after => exact tracked.productFrom _ after

theorem Tracked.signed_step (tracked : Tracked ls stop fuel) (inside : index ≤ ls.length) :
    Follows ls (parseSigned stop (fuel + 1) (ls.drop index))
      (signedAt stop (marked ls) (fuel + 1) index) := by
  simp only [parseSigned, signedAt, (operatorAt_marked inside).1]
  cases found : additive? (ls.drop index) with
  | none => exact tracked.primary inside
  | some entry =>
    obtain ⟨op, rest⟩ := entry
    obtain ⟨-, text, offset, here⟩ := additive?_eq_some found
    obtain ⟨further, rfl⟩ := drop_eq_cons here
    simp only [Option.map_some]
    have operand := tracked.signed further
    generalize parseSigned stop fuel (ls.drop (index + 1)) = parsed,
      signedAt stop (marked ls) fuel (index + 1) = moved at operand
    cases operand with
    | fault f => exact .fault f
    | ok e after => exact .ok _ after

theorem Tracked.primary_step (tracked : Tracked ls stop fuel) (inside : index ≤ ls.length) :
    Follows ls (parsePrimary stop (fuel + 1) (ls.drop index))
      (primaryAt stop (marked ls) (fuel + 1) index) := by
  simp only [parsePrimary, primaryAt, look_marked inside]
  cases here : ls.drop index with
  | nil => exact .fault _
  | cons l rest =>
    obtain ⟨further, rfl⟩ := drop_eq_cons here
    obtain ⟨token, text, offset⟩ := l
    cases token with
    | number v => exact .ok _ further
    | name x => exact .ok _ further
    | operator op => exact .fault _
    | closeParen => exact .fault _
    | openParen =>
      simp only [List.head?_cons, pass]
      have inner := tracked.sum further
      generalize parseSum stop fuel (ls.drop (index + 1)) = parsed,
        sumAt stop (marked ls) fuel (index + 1) = moved at inner
      cases inner with
      | fault f => exact .fault f
      | @ok e index' after =>
        simp only [look_marked after]
        cases there : ls.drop index' with
        | nil => exact .fault _
        | cons l rest =>
          obtain ⟨last, rfl⟩ := drop_eq_cons there
          obtain ⟨token, text, offset⟩ := l
          cases token with
          | closeParen => exact .ok e last
          | number | name | operator | openParen => exact .fault _

end Steps

theorem tracked (ls : List (Lexeme N)) (stop fuel : Nat) : Tracked ls stop fuel := by
  induction fuel with
  | zero =>
    constructor
    all_goals
      intros
      simp only [parseSum, sumAt, sumFrom, sumFromAt, parseProduct, productAt, productFrom, productFromAt,
        parseSigned, signedAt, parsePrimary, primaryAt]
      rw [refuse_marked stop (by assumption)]
      exact .fault _
  | succ fuel ih =>
    exact {
      sum := ih.sum_step
      sumFrom := fun _ _ => ih.sumFrom_step
      product := ih.product_step
      productFrom := fun _ _ => ih.productFrom_step
      signed := ih.signed_step
      primary := ih.primary_step }

theorem parseIndexed_eq (stop : Nat) (ls : List (Lexeme N)) :
    parseIndexed stop ls = (parseLexemes stop ls).mapError .fault := by
  have whole := (tracked ls stop (nesting ls)).sum (Nat.zero_le _)
  rw [List.drop_zero] at whole
  simp only [parseIndexed, parseLexemes]
  generalize parseSum stop (nesting ls) ls = parsed, sumAt stop (marked ls) (nesting ls) 0 = moved at whole
  cases whole with
  | fault f => rfl
  | @ok e index inside =>
    simp only [look_marked inside]
    cases ls.drop index <;> rfl

end Flowsheet.Formula
