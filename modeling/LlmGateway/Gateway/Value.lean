import LlmGateway.Common.Rounding
import Mathlib.Algebra.Order.Field.Rat
import Mathlib.Data.Rat.Defs

/-!
# Values, exceptions and messages

Amounts of money and prices are rationals. What the request path computes of them before it reaches
a ledger is rounded, and the rounding is a parameter; a module that takes none is about exact
amounts. A token count or a piece of content that an adapter passes on unchecked is a `PyVal`,
because the adapter for Ollama hands over whatever the JSON held.
-/

namespace LlmGateway

open Rounding (fl)

/-- A decoded JSON value, but for the infinities and NaN, or a number of characters. -/
inductive PyVal where
  | none
  | bool (b : Bool)
  | int (n : ℤ)
  /-- An `int` the gateway has counted in texts that it holds: far below what a `float` can hold. -/
  | count (n : ℕ)
  | float (x : ℚ)
  | str (s : String)
  | list (xs : List PyVal)
  | dict (kvs : List (String × PyVal))

/-- The body of an `HTTPException`. -/
inductive HttpDetail where
  | message (error requestId : String)
  | chainRefused (error : String) (spent : List (String × ℚ)) (capUsd : ℚ) (unpriced : List String)
      (requestId : String)

/-- `fastapi.HTTPException`. -/
structure HttpError where
  statusCode : ℕ
  detail : HttpDetail
  headers : List (String × String) := []

/-- The subclasses of `Exception` the request path tells apart. -/
inductive PyError where
  | providerBudgetExhausted (provider : String) (spent cap : ℚ)
  | keyBudgetExhausted (spent cap : ℚ)
  | unpricedModel (provider model : String)
  | providerError (message : String) (retryable : Bool)
  | allProvidersFailed (message : String)
  | httpException (e : HttpError)
  | typeError
  | valueError
  | overflowError
  /-- Anything else: a Redis or database error, a bug. -/
  | other (name : String)

/-- What a `raise` can propagate. Only the first is caught by `except Exception`. -/
inductive Exc where
  | exception (e : PyError)
  | cancelled
  | generatorExit
  /-- `KeyboardInterrupt` or `SystemExit`. -/
  | interrupt

/-- Caught by `except Exception`. -/
def Exc.isException : Exc → Bool
  | .exception _ => true
  | _ => false

namespace PyVal

/-- `len(v)`. -/
def len : PyVal → Except Exc ℕ
  | .str s => .ok s.length
  | .list xs => .ok xs.length
  | .dict kvs => .ok kvs.length
  | _ => .error (.exception .typeError)

theorem len_error {v : PyVal} {x : Exc} (h : v.len = .error x) : x = .exception .typeError := by
  unfold len at h
  split at h <;> cases h
  rfl

/-- `float(n)` does not overflow: from this bound on, the nearest double would be `2 ** 1024`. -/
@[irreducible] def fitsDouble (n : ℤ) : Bool := n.natAbs < 2 ^ 1024 - 2 ^ 970

/-- The number a value counts as beside a `float`; `True` and `False` are 1 and 0. -/
def number : PyVal → Option ℚ
  | .int n => if fitsDouble n then some n else Option.none
  | .count n => some n
  | .float x => some x
  | .bool b => some (if b then 1 else 0)
  | _ => Option.none

/-- What arithmetic with a `float` raises: an `int` is too large, anything else no number. -/
def refusal : PyVal → PyError
  | .int _ => .overflowError
  | _ => .typeError

/-- `v * price` for a `float` price. -/
def mul [Rounding] (v : PyVal) (price : ℚ) : Except Exc ℚ :=
  match v.number with
  | some x => .ok (fl (fl x * price))
  | Option.none => .error (.exception v.refusal)

/-- A value arithmetic with a `float` accepts. -/
def IsNumber (v : PyVal) : Prop := v.number.isSome

instance (v : PyVal) : Decidable v.IsNumber := inferInstanceAs (Decidable (v.number.isSome = true))

theorem mul_of_number [Rounding] {v : PyVal} {x : ℚ} (h : v.number = some x) (price : ℚ) :
    v.mul price = .ok (fl (fl x * price)) := by
  rw [mul, h]

theorem mul_of_not_isNumber [Rounding] {v : PyVal} (h : ¬ v.IsNumber) (price : ℚ) :
    v.mul price = .error (.exception v.refusal) := by
  rw [IsNumber, Bool.not_eq_true, Option.isSome_eq_false_iff, Option.isNone_iff_eq_none] at h
  rw [mul, h]

@[simp] theorem number_count (n : ℕ) : (count n).number = some (n : ℚ) := rfl

theorem number_int {n : ℤ} (h : fitsDouble n = true) : (int n).number = some (n : ℚ) := by
  rw [number, if_pos h]

theorem fitsDouble_of_le {m n : ℕ} (h : n ≤ m) (hm : fitsDouble m = true) : fitsDouble n = true := by
  unfold fitsDouble at *
  rw [Int.natAbs_natCast, decide_eq_true_iff] at *
  exact h.trans_lt hm

@[simp] theorem number_zero : (int 0).number = some 0 := number_int (by decide +kernel)

end PyVal

/-! ## Messages -/

/-- One turn of conversation. -/
structure ChatMessage where
  role : String
  content : String

/-- `DEFAULT_MAX_OUTPUT_TOKENS`: the output cap assumed when a caller sets none. -/
def DEFAULT_MAX_OUTPUT_TOKENS : ℕ := 2048

/-- The generation controls a caller can set. -/
structure SamplingParams where
  temperature : Option ℚ := none
  topP : Option ℚ := none
  maxTokens : Option ℕ := none
  stop : Option (List String) := none

/-- A completed answer with the token counts it is priced from. -/
structure ChatResponse where
  content : PyVal
  provider : String
  model : String
  inputTokens : PyVal
  outputTokens : PyVal

/-- One piece of a streamed response. `done` marks the one that carries the usage totals. -/
structure StreamChunk where
  content : PyVal
  done : Bool := false
  inputTokens : PyVal := .int 0
  outputTokens : PyVal := .int 0
  provider : String := ""
  model : String := ""

end LlmGateway
