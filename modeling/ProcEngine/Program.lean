import ProcEngine.Fault
/-!
# Programs

Host code as data. A `Program` is the tree of requests that host code makes of the engine: at each
node it asks for one thing and goes on according to the answer, until it is done or fails. An
`Interface` says what may be asked. `Program.run` serves the requests over a state.

A program is finite, so host code that goes on for ever is left out. Up to any moment of a run such
code has made finitely many requests, and a program that is done where the code has got to makes the
same ones and is given the same answers. What holds at every moment of a run therefore holds with
such code as well.

An `Outcome` is what any piece of execution over a state comes to. It keeps apart the faults that
scripts and hosts raise, the breaches that break everything off, and the plain end of the fuel,
which says nothing about what the execution would have come to.
-/

namespace ProcEngine

inductive Outcome (σ α : Type)
  | ok (value : α) (state : σ)
  | fault (why : Fault) (state : σ)
  | breach (why : Breach) (state : σ)
  | exhausted

/-- Execution over a state `σ`. -/
def Act (σ α : Type) := σ → Outcome σ α

namespace Act

variable {σ α β : Type}

@[always_inline, inline]
def pure (a : α) : Act σ α := fun s => .ok a s

@[always_inline, inline]
def bind (x : Act σ α) (f : α → Act σ β) : Act σ β := fun s =>
  match x s with
  | .ok a s => f a s
  | .fault e s => .fault e s
  | .breach b s => .breach b s
  | .exhausted => .exhausted

instance : Monad (Act σ) where
  pure := Act.pure
  bind := Act.bind

def raise (e : Fault) : Act σ α := fun s => .fault e s

def ofExcept (x : Except Fault α) : Act σ α := fun s =>
  match x with
  | .ok a => .ok a s
  | .error e => .fault e s

instance : MonadLift (Except Fault) (Act σ) := ⟨ofExcept⟩

/-- Breaks off unless `p` holds. -/
def need (p : Prop) [Decidable p] (b : Breach) : Act σ Unit :=
  fun s => if p then .ok () s else .breach b s

def get : Act σ σ := fun s => .ok s s

def set (s : σ) : Act σ Unit := fun _ => .ok () s

@[simp] theorem pure_apply (a : α) (s : σ) : (Pure.pure a : Act σ α) s = .ok a s := rfl

@[simp] theorem raise_apply (e : Fault) (s : σ) : (raise e : Act σ α) s = .fault e s := rfl

@[simp] theorem get_apply (s : σ) : (get : Act σ σ) s = .ok s s := rfl

@[simp] theorem set_apply (s t : σ) : (set t : Act σ Unit) s = .ok () t := rfl

theorem bind_apply (x : Act σ α) (f : α → Act σ β) (s : σ) :
    (x >>= f) s = match x s with
      | .ok a s => f a s
      | .fault e s => .fault e s
      | .breach b s => .breach b s
      | .exhausted => .exhausted := rfl

theorem get_bind (f : σ → Act σ β) (s : σ) : (get >>= f) s = f s s := rfl

theorem need_bind (p : Prop) [Decidable p] (b : Breach) (f : Unit → Act σ β) (s : σ) :
    (need p b >>= f) s = if p then f () s else .breach b s := by
  rw [bind_apply, need]
  by_cases h : p
  · rw [if_pos h, if_pos h]
  · rw [if_neg h, if_neg h]

end Act

structure Interface where
  Request : Type
  Answer : Request → Type

inductive Program (i : Interface) (α : Type) : Type
  | done (a : α)
  | fail (why : Fault)
  /-- A request that fails hands its fault to the program. -/
  | ask (r : i.Request) (next : Except Fault (i.Answer r) → Program i α)

namespace Program

variable {i : Interface} {α β : Type}

def bind : Program i α → (α → Program i β) → Program i β
  | done a, f => f a
  | fail e, _ => fail e
  | ask r next, f => ask r fun answer => (next answer).bind f

instance : Monad (Program i) where
  pure := done
  bind := bind

/-- Asks for one thing and gives up if it cannot be had. -/
def request (r : i.Request) : Program i (i.Answer r) :=
  ask r fun
    | .ok answer => done answer
    | .error e => fail e

def ofExcept : Except Fault α → Program i α
  | .ok a => done a
  | .error e => fail e

instance : MonadLift (Except Fault) (Program i) := ⟨ofExcept⟩

def run {σ : Type} (serve : (r : i.Request) → Act σ (i.Answer r)) : Program i α → Act σ α
  | done a, s => .ok a s
  | fail e, s => .fault e s
  | ask r next, s =>
    match serve r s with
    | .ok answer s => (next (.ok answer)).run serve s
    | .fault e s => (next (.error e)).run serve s
    | .breach b s => .breach b s
    | .exhausted => .exhausted

end Program

end ProcEngine
