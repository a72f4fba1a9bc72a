import Mathlib.Algebra.Order.Field.Rat
import PenMath.Json.Numeral
import PenMath.Tree.Linear

/-!
# Reading a text as arithmetic

What a text of digits, signs and parentheses is worth, as ordinary arithmetic has it: "*" and "/"
from left to right before "+" and "-" from left to right, parentheses first, and nothing divided by
zero but zero. `Reads` is the grammar, with the value beside each text.

A grammar alone does not say that a text has one value. The calculator `calculate` goes through a
text once, character by character, and comes to the value of every reading of it
(`calculate_of_reads`), so there is one at most (`Reads.unique`). It carries a `Tally`, which is
also how the value of a tree is worked out.
-/

namespace PenMath.Arithmetic

open Json.Numeral (digitValue digitsValue)

/-! ## The grammar -/

/-- What a text is read as. -/
inductive Level where
  | factor
  | product
  | sum

/-- A text is read as a number. -/
inductive Reads : Level → List Char → ℚ → Prop
  | digits {text} (notEmpty : text ≠ []) (all : ∀ c ∈ text, c.isDigit = true) :
      Reads .factor text (digitsValue text)
  | parentheses {text v} (inner : Reads .sum text v) : Reads .factor (parenthesized text) v
  | factor {text v} (single : Reads .factor text v) : Reads .product text v
  | times {left right v w} (product : Reads .product left v) (factor : Reads .factor right w) :
      Reads .product (left ++ '*' :: right) (v * w)
  | quotient {left right v w} (product : Reads .product left v) (factor : Reads .factor right w) :
      Reads .product (left ++ '/' :: right) (v / w)
  | product {text v} (single : Reads .product text v) : Reads .sum text v
  | plus {left right v w} (sum : Reads .sum left v) (product : Reads .product right w) :
      Reads .sum (left ++ '+' :: right) (v + w)
  | minus {left right v w} (sum : Reads .sum left v) (product : Reads .product right w) :
      Reads .sum (left ++ '-' :: right) (v - w)

/-! ## Tallies -/

/-- A line of arithmetic part way through, from left to right. -/
structure Tally where
  /-- The sum of the terms before. -/
  total : ℚ
  /-- Whether the term is taken off the total. -/
  minus : Bool
  /-- The term so far. -/
  term : ℚ
  /-- Whether the next operand divides the term. -/
  divides : Bool
deriving DecidableEq

namespace Tally

/-- A line of which nothing has been read: a sum of no terms, and a term of no factors. -/
def start : Tally := ⟨0, false, 1, false⟩

/-- The tally with one more operand. -/
def operand (t : Tally) (v : ℚ) : Tally :=
  { t with term := if t.divides then t.term / v else t.term * v, divides := false }

/-- What the line comes to if it ends here. -/
def value (t : Tally) : ℚ := if t.minus then t.total - t.term else t.total + t.term

/-- The tally after a sign: "*" and "/" go on with the term, the others begin a new one. -/
def sign (t : Tally) (c : Char) : Tally :=
  if c = '*' then { t with divides := false }
  else if c = '/' then { t with divides := true }
  else ⟨t.value, c = '-', 1, false⟩

end Tally

/-! ## The calculator -/

/-- A calculator at work: the line it is in, the digits just read, and the lines that are waiting
for a closing parenthesis. -/
structure Calculator where
  tally : Tally
  digits : Option ℕ
  outer : List Tally

namespace Calculator

/-- The line with the digits just read as its last operand. -/
def settled (s : Calculator) : Tally :=
  match s.digits with
  | some n => s.tally.operand n
  | none => s.tally

/-- The calculator after one more character. -/
def step (s : Calculator) (c : Char) : Calculator :=
  if c.isDigit then { s with digits := some (10 * s.digits.getD 0 + digitValue c) }
  else if c = '(' then ⟨.start, none, s.tally :: s.outer⟩
  else if c = ')' then
    match s.outer with
    | [] => s
    | t :: outer => ⟨t.operand s.settled.value, none, outer⟩
  else ⟨s.settled.sign c, none, s.outer⟩

/-- The calculator after a text. -/
def run (s : Calculator) (text : List Char) : Calculator := text.foldl step s

@[simp] theorem run_nil (s : Calculator) : s.run [] = s := rfl

@[simp] theorem run_cons (s : Calculator) (c : Char) (rest : List Char) :
    s.run (c :: rest) = (s.step c).run rest := rfl

@[simp] theorem run_append (s : Calculator) (front back : List Char) :
    s.run (front ++ back) = (s.run front).run back := List.foldl_append

/-- A sign ends the number before it and is then counted. -/
theorem step_sign (s : Calculator) {c : Char} (sign : c ∈ ['+', '-', '*', '/']) :
    s.step c = ⟨s.settled.sign c, none, s.outer⟩ := by
  -- a sign is no digit and no parenthesis
  rw [step, if_neg, if_neg, if_neg]
  all_goals
    intro other
    simp only [List.mem_cons, List.not_mem_nil, or_false] at sign
    rcases sign with h | h | h | h <;> rw [h] at other <;> exact absurd other (by decide)

theorem step_open (s : Calculator) : s.step '(' = ⟨.start, none, s.tally :: s.outer⟩ := rfl

theorem step_close {s : Calculator} {t : Tally} {outer : List Tally}
    (waiting : s.outer = t :: outer) :
    s.step ')' = ⟨t.operand s.settled.value, none, outer⟩ := by
  rw [step, waiting]
  rfl

theorem run_sign {s : Calculator} {left right : List Char} {c : Char}
    (sign : c ∈ ['+', '-', '*', '/']) :
    s.run (left ++ c :: right) =
      run ⟨(s.run left).settled.sign c, none, (s.run left).outer⟩ right := by
  rw [run_append, run_cons, step_sign _ sign]

/-- Digits make up one number, whatever comes after. -/
theorem run_digits (s : Calculator) (n : ℕ) {text : List Char}
    (all : ∀ c ∈ text, c.isDigit = true) :
    { s with digits := some n }.run text =
      { s with digits := some (text.foldl (fun n c => 10 * n + digitValue c) n) } := by
  induction text generalizing n with
  | nil => rfl
  | cons c rest ih =>
    obtain ⟨first, others⟩ := List.forall_mem_cons.mp all
    rw [run_cons, step, if_pos first, List.foldl_cons, ← ih _ others]
    rfl

end Calculator

/-- The number that a text comes to. -/
def calculate (text : List Char) : ℚ := (Calculator.run ⟨.start, none, []⟩ text).settled.value

/-- What a text that is read as a number does to a tally: a factor is one more operand, a product is
a whole term, and a sum is a whole line. -/
def Level.Adds (v : ℚ) : Level → Tally → Tally → Prop
  | .factor, t, t' => t' = t.operand v
  | .product, t, t' => t.term = 1 → t.divides = false → t' = { t with term := v }
  | .sum, t, t' => t = .start → t'.value = v

/-- Whether a text, in whatever line it stands, leaves the calculator in that line and does to the
tally what this number does at this level. -/
def Level.Does (level : Level) (text : List Char) (v : ℚ) : Prop :=
  ∀ t outer, (Calculator.run ⟨t, none, outer⟩ text).outer = outer ∧
    level.Adds v t (Calculator.run ⟨t, none, outer⟩ text).settled

namespace Level

variable {t t' t'' : Tally} {v w : ℚ} {text left right : List Char}

/-! The tallies of two parts with a sign between them. -/

theorem adds_times (first : product.Adds v t t') (second : factor.Adds w (t'.sign '*') t'') :
    product.Adds (v * w) t t'' := by
  intro one multiplies
  rw [second, first one multiplies]
  simp [Tally.sign, Tally.operand, multiplies]

theorem adds_quotient (first : product.Adds v t t') (second : factor.Adds w (t'.sign '/') t'') :
    product.Adds (v / w) t t'' := by
  intro one multiplies
  rw [second, first one multiplies]
  simp [Tally.sign, Tally.operand, multiplies]

theorem adds_plus (first : sum.Adds v t t') (second : product.Adds w (t'.sign '+') t'') :
    sum.Adds (v + w) t t'' := by
  intro begins
  rw [second rfl rfl]
  simp [Tally.sign, Tally.value, ← first begins]

theorem adds_minus (first : sum.Adds v t t') (second : product.Adds w (t'.sign '-') t'') :
    sum.Adds (v - w) t t'' := by
  intro begins
  rw [second rfl rfl]
  simp [Tally.sign, Tally.value, ← first begins]

/-! The calculator on the parts that the grammar knows. -/

/-- Digits are one operand. -/
theorem does_digits (notEmpty : text ≠ []) (all : ∀ c ∈ text, c.isDigit = true) :
    factor.Does text (digitsValue text) := by
  intro t outer
  obtain ⟨c, rest, rfl⟩ := List.exists_cons_of_ne_nil notEmpty
  obtain ⟨first, others⟩ := List.forall_mem_cons.mp all
  have run := Calculator.run_digits ⟨t, none, outer⟩ (10 * 0 + digitValue c) others
  rw [Calculator.run_cons, Calculator.step, if_pos first]
  rw [show (none : Option ℕ).getD 0 = 0 from rfl, run]
  exact ⟨rfl, rfl⟩

/-- A sum between parentheses is one operand: the inner line begins anew, and the closing
parenthesis finds the outer one waiting. -/
theorem Does.parenthesized (does : sum.Does text v) : factor.Does (parenthesized text) v := by
  intro t outer
  obtain ⟨inside, adds⟩ := does .start (t :: outer)
  rw [PenMath.parenthesized, Calculator.run_cons, Calculator.step_open, Calculator.run_append,
    Calculator.run_cons, Calculator.step_close inside, Calculator.run_nil]
  refine ⟨rfl, ?_⟩
  rw [Level.Adds, Calculator.settled, adds rfl]

/-- One operand is a whole term. -/
theorem Does.term (does : factor.Does text v) : product.Does text v := by
  intro t outer
  obtain ⟨inside, adds⟩ := does t outer
  refine ⟨inside, ?_⟩
  intro one multiplies
  rw [adds, Tally.operand, multiplies, one]
  simp

/-- One term is a whole line. -/
theorem Does.line (does : product.Does text v) : sum.Does text v := by
  intro t outer
  obtain ⟨inside, adds⟩ := does t outer
  refine ⟨inside, ?_⟩
  intro begins
  subst begins
  rw [adds rfl rfl]
  simp [Tally.value, Tally.start]

/-- Two parts with a sign between them do what their tallies add up to. -/
theorem Does.followed {level next whole : Level} {x : ℚ} {c : Char}
    (does : level.Does left v) (sign : c ∈ ['+', '-', '*', '/']) (following : next.Does right w)
    (adds : ∀ t t' t'', level.Adds v t t' → next.Adds w (t'.sign c) t'' → whole.Adds x t t'') :
    whole.Does (left ++ c :: right) x := by
  intro t outer
  obtain ⟨inside, first⟩ := does t outer
  rw [Calculator.run_sign sign, inside]
  obtain ⟨inside', second⟩ := following (Tally.sign _ c) outer
  exact ⟨inside', adds _ _ _ first second⟩

end Level

/-- The calculator reads every text as the grammar does, and is in the line it was in. The induction
is on the reading, for every line that the text may stand in. -/
theorem adds_of_reads {level : Level} {text : List Char} {v : ℚ} (h : Reads level text v) :
    level.Does text v := by
  induction h with
  | digits notEmpty all => exact Level.does_digits notEmpty all
  | parentheses _ ih => exact ih.parenthesized
  | factor _ ih => exact ih.term
  | times _ _ ihLeft ihRight =>
    exact ihLeft.followed (by simp) ihRight fun _ _ _ => Level.adds_times
  | quotient _ _ ihLeft ihRight =>
    exact ihLeft.followed (by simp) ihRight fun _ _ _ => Level.adds_quotient
  | product _ ih => exact ih.line
  | plus _ _ ihLeft ihRight => exact ihLeft.followed (by simp) ihRight fun _ _ _ => Level.adds_plus
  | minus _ _ ihLeft ihRight =>
    exact ihLeft.followed (by simp) ihRight fun _ _ _ => Level.adds_minus

/-- The calculator comes to the value of a text that is read as a sum. -/
theorem calculate_of_reads {text : List Char} {v : ℚ} (h : Reads .sum text v) :
    calculate text = v := (adds_of_reads h .start []).2 rfl

/-- No text is read as two numbers. -/
theorem Reads.unique {text : List Char} {v w : ℚ} (h : Reads .sum text v)
    (h' : Reads .sum text w) : v = w :=
  (calculate_of_reads h).symm.trans (calculate_of_reads h')

end PenMath.Arithmetic
