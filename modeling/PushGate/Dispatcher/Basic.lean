import PushGate.Dispatcher.Handler

/-!
# Dispatchers and how they are built

A dispatcher is fixed once it is built: the token that authenticates deliveries, the limit on the
length of a body, the size of its pool, and its handlers.  A token must not be empty, and there must
be a pool of that size.

**Results.**
* `build_fst_eq_ok_iff`: what is built is what was asked for.
* `build_fst_eq_emptyToken_iff`, `build_fst_eq_pool_iff`: when building fails, and why.
-/

namespace PushGate

/-- How many idle messages are kept, unless it is said otherwise. -/
def defaultPoolSize : Nat := 100

/-- How many bytes a body may have, unless it is said otherwise. -/
def defaultMaxBodyBytes : Nat := 1024 * 1024

/-- What handles exchanges. -/
structure Dispatcher where
  token : String
  maxBodyBytes : Nat
  poolSize : Nat
  handlers : Handlers
  token_ne_empty : token ≠ ""
  poolSize_le : poolSize ≤ Pool.maxCapacity

/-- The pool with which a dispatcher begins. -/
def Dispatcher.initialPool (d : Dispatcher) : Pool Message :=
  .ofCapacity d.poolSize

/-- Why a dispatcher cannot be built. -/
inductive BuildError where
  | emptyToken
  /-- There is no pool of the size asked for. -/
  | pool (e : Pool.CapacityError)
deriving DecidableEq

def BuildError.message : BuildError → String
  | .emptyToken => "token must not be empty"
  | .pool e => e.message

/-- A dispatcher in the making. -/
structure Builder where
  token : String
  poolSize : Nat := defaultPoolSize
  maxBodyBytes : Nat := defaultMaxBodyBytes
  handlers : Handlers := {}

namespace Builder

def withPoolSize (b : Builder) (n : Nat) : Builder :=
  { b with poolSize := n }

def withMaxBodyBytes (b : Builder) (n : Nat) : Builder :=
  { b with maxBodyBytes := n }

def onRoute (b : Builder) (route : Route) (h : MessageHandler) : Builder :=
  { b with handlers := b.handlers.onRoute route h }

def onUnknown (b : Builder) (h : MessageHandler) : Builder :=
  b.onRoute .unknown h

def onRejection (b : Builder) (h : RejectionHandler) : Builder :=
  { b with handlers := b.handlers.onRejection h }

/-- Builds the dispatcher.  That it is ready is reported before its pool is made. -/
def build (b : Builder) : Except BuildError Dispatcher × List LogEntry :=
  if h : b.token = "" then (.error .emptyToken, [])
  else
    (if hp : b.poolSize ≤ Pool.maxCapacity then
        .ok ⟨b.token, b.maxBodyBytes, b.poolSize, b.handlers, h, hp⟩
      else .error (.pool .overflow),
      [.dispatcherBuilt b.poolSize b.maxBodyBytes])

/-- What is built is what was asked for. -/
theorem build_fst_eq_ok_iff (b : Builder) (d : Dispatcher) :
    b.build.1 = .ok d ↔
      d.token = b.token ∧ d.maxBodyBytes = b.maxBodyBytes ∧ d.poolSize = b.poolSize ∧
        d.handlers = b.handlers := by
  obtain ⟨token, maxBodyBytes, poolSize, handlers, htoken, hsize⟩ := d
  constructor
  · intro h
    unfold build at h
    split at h
    · cases h
    · split at h
      · cases h
        exact ⟨rfl, rfl, rfl, rfl⟩
      · cases h
  · rintro ⟨rfl, rfl, rfl, rfl⟩
    simp [build, htoken, hsize]

/-- A token is missing exactly if it is empty. -/
theorem build_fst_eq_emptyToken_iff (b : Builder) :
    b.build.1 = .error .emptyToken ↔ b.token = "" := by
  unfold build
  split
  · simp_all
  · simp only [iff_false, *]
    split <;> simp

/-- With a token, building fails exactly if the pool would be too large. -/
theorem build_fst_eq_pool_iff (b : Builder) (e : Pool.CapacityError) :
    b.build.1 = .error (.pool e) ↔ b.token ≠ "" ∧ Pool.maxCapacity < b.poolSize := by
  unfold build
  split
  · simp_all
  · split
    · simp_all
    · cases e
      simp_all

end Builder
end PushGate
