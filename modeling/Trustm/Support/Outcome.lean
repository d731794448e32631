import Mathlib.Algebra.Group.Nat.Defs
import Mathlib.Data.List.Basic

/-!
# Outcomes of bounds-checked code

A piece of code over slices returns a value, returns an error its caller can handle, or
panics. The three are kept apart, so that "no index is out of bounds" is a statement
about the outcome and not an assumption of the model.

* `Outcome ε α` with its monad: an error or a panic ends the computation.
* the primitive steps that can panic: `index`, `slice`, `sliceTo`, `sliceFrom`,
  `copyFromSlice`, `sub` (subtraction of unsigned sizes) and `vec` (an allocation),
  each with the one lemma that runs it when its bound holds.
* the checked counterparts that answer with an option: `getFrom`, and `okOr`, which turns a
  missing value into an error.
* `ofExcept`, for code that cannot panic.
-/

/-- A value, an error or a panic. -/
inductive Outcome (ε α : Type) where
  | ok (a : α)
  | err (e : ε)
  | panic
  deriving DecidableEq, Repr

namespace Outcome

variable {ε α β : Type}

protected def bind (x : Outcome ε α) (f : α → Outcome ε β) : Outcome ε β :=
  match x with
  | ok a => f a
  | err e => err e
  | panic => panic

instance : Monad (Outcome ε) where
  pure := ok
  bind := Outcome.bind

@[simp] theorem pure_eq (a : α) : (pure a : Outcome ε α) = ok a := rfl

@[simp] theorem ok_bind (a : α) (f : α → Outcome ε β) : (ok a >>= f) = f a := rfl

@[simp] theorem err_bind (e : ε) (f : α → Outcome ε β) : (err e >>= f) = err e := rfl

@[simp] theorem panic_bind (f : α → Outcome ε β) : ((panic : Outcome ε α) >>= f) = panic := rfl

/-- The computation ends in an error its caller can handle. -/
def IsErr (x : Outcome ε α) : Prop := ∃ e, x = err e

@[simp] theorem isErr_err (e : ε) : (err e : Outcome ε α).IsErr := ⟨e, rfl⟩

@[simp] theorem not_isErr_ok (a : α) : ¬ (ok a : Outcome ε α).IsErr := by
  rintro ⟨e, he⟩
  cases he

/-! ## Steps that can panic -/

/-- The largest size of an object in bytes on a 64-bit host (`isize::MAX`). -/
def isizeMax : Nat := 2 ^ 63 - 1

/-- The bytes behind a `&[u8]`: no object in memory is larger than `isizeMax`. -/
structure ByteString where
  bytes : List UInt8
  fits : bytes.length ≤ isizeMax

/-- `xs[i]`. -/
def index (xs : List α) (i : Nat) : Outcome ε α :=
  match xs[i]? with
  | some a => ok a
  | none => panic

/-- `&xs[..j]`. -/
def sliceTo (xs : List α) (j : Nat) : Outcome ε (List α) :=
  if j ≤ xs.length then ok (xs.take j) else panic

/-- `&xs[i..]`. -/
def sliceFrom (xs : List α) (i : Nat) : Outcome ε (List α) :=
  if i ≤ xs.length then ok (xs.drop i) else panic

/-- `&xs[i..j]`. -/
def slice (xs : List α) (i j : Nat) : Outcome ε (List α) :=
  if i ≤ j ∧ j ≤ xs.length then ok ((xs.take j).drop i) else panic

/-- `dst.copy_from_slice(src)`: the new contents of `dst`. -/
def copyFromSlice (dst src : List α) : Outcome ε (List α) :=
  if src.length = dst.length then ok src else panic

/-- `a - b` on unsigned sizes. -/
def sub (a b : Nat) : Outcome ε Nat :=
  if b ≤ a then ok (a - b) else panic

/-- `vec![x; n]` over one-byte elements; the capacity check is the only failure. -/
def vec (x : α) (n : Nat) : Outcome ε (List α) :=
  if n ≤ isizeMax then ok (List.replicate n x) else panic

/-- `xs.get(i..)`. -/
def getFrom (xs : List α) (i : Nat) : Option (List α) :=
  if i ≤ xs.length then some (xs.drop i) else none

/-- `x.ok_or(e)`. -/
def okOr (x : Option α) (e : ε) : Outcome ε α :=
  match x with
  | some a => ok a
  | none => err e

/-- A result, or an error. -/
def ofExcept : Except ε α → Outcome ε α
  | .ok a => ok a
  | .error e => err e

@[simp] theorem ofExcept_ok (a : α) : (ofExcept (.ok a) : Outcome ε α) = ok a := rfl

@[simp] theorem ofExcept_error (e : ε) : (ofExcept (.error e) : Outcome ε α) = err e := rfl

@[simp] theorem okOr_some (a : α) (e : ε) : okOr (some a) e = ok a := rfl

@[simp] theorem okOr_none (e : ε) : (okOr none e : Outcome ε α) = err e := rfl

@[simp] theorem index_zero_cons (a : α) (xs : List α) : (index (a :: xs) 0 : Outcome ε α) = ok a :=
  rfl

@[simp] theorem index_one_cons (a b : α) (xs : List α) :
    (index (a :: b :: xs) 1 : Outcome ε α) = ok b := rfl

theorem sliceTo_of_le {xs : List α} {j : Nat} (h : j ≤ xs.length) :
    (sliceTo xs j : Outcome ε (List α)) = ok (xs.take j) := if_pos h

theorem sliceFrom_of_le {xs : List α} {i : Nat} (h : i ≤ xs.length) :
    (sliceFrom xs i : Outcome ε (List α)) = ok (xs.drop i) := if_pos h

theorem slice_of_le {xs : List α} {i j : Nat} (hij : i ≤ j) (hj : j ≤ xs.length) :
    (slice xs i j : Outcome ε (List α)) = ok ((xs.take j).drop i) := if_pos ⟨hij, hj⟩

theorem copyFromSlice_of_length {dst src : List α} (h : src.length = dst.length) :
    (copyFromSlice dst src : Outcome ε (List α)) = ok src := if_pos h

theorem sub_of_le {a b : Nat} (h : b ≤ a) : (sub a b : Outcome ε Nat) = ok (a - b) := if_pos h

theorem vec_eq_ok {x : α} {n : Nat} {xs : List α} (h : (vec x n : Outcome ε (List α)) = ok xs) :
    n ≤ isizeMax := by
  unfold vec at h
  split at h
  · assumption
  · cases h

theorem vec_of_le {x : α} {n : Nat} (h : n ≤ isizeMax) :
    (vec x n : Outcome ε (List α)) = ok (List.replicate n x) := if_pos h

end Outcome
