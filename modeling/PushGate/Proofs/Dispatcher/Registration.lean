import Mathlib.Data.List.Induction
import PushGate.Proofs.Dispatcher.Report

/-!
# Registration

A dispatcher is set up by calls on its builder: handlers for routes, one for rejections, the size of the
pool, and the limit on bodies.  Every call sets one part and leaves the others, so what counts for a part
is the last call that sets it, wherever the others stand.  The handler of the unknown is the handler of
the route `unknown`; rejections have a part of their own.

**Results.**
* `get_register_self`, `get_register_of_ne`: one call sets its part and no other.
* `lastSet_iff`: after any calls, a part is as it was set last.
* `registerAll_swap`: calls for different parts commute.
* `build_registered`: the dispatcher that is built, and what it does with exchanges.
-/

namespace PushGate

/-- A call on a builder. -/
inductive Registration where
  | handler (route : Route) (h : MessageHandler)
  | unknownHandler (h : MessageHandler)
  | rejectionHandler (h : RejectionHandler)
  | poolSize (n : Nat)
  | maxBodyBytes (n : Nat)

namespace Registration

/-- What a call on a builder can set. -/
inductive Part where
  | handler (route : Route)
  | rejectionHandler
  | poolSize
  | maxBodyBytes
deriving DecidableEq

/-- The type of what a part is set to; a handler may be left out. -/
def Part.Carrier : Part → Type
  | .handler _ => Option MessageHandler
  | .rejectionHandler => Option RejectionHandler
  | .poolSize => Nat
  | .maxBodyBytes => Nat

/-- What a part is set to without a call. -/
def Part.initial : (p : Part) → p.Carrier
  | .handler _ => (none : Option MessageHandler)
  | .rejectionHandler => (none : Option RejectionHandler)
  | .poolSize => (100 : Nat)
  | .maxBodyBytes => (1048576 : Nat)

/-- The part that a call sets. -/
def part : Registration → Part
  | .handler route _ => .handler route
  | .unknownHandler _ => .handler .unknown
  | .rejectionHandler _ => .rejectionHandler
  | .poolSize _ => .poolSize
  | .maxBodyBytes _ => .maxBodyBytes

/-- What a call sets its part to. -/
def value : (r : Registration) → r.part.Carrier
  | .handler _ h => some h
  | .unknownHandler h => some h
  | .rejectionHandler h => some h
  | .poolSize n => n
  | .maxBodyBytes n => n

/-- What a part is set to by calls: by the last one that sets it, if there is one. -/
inductive LastSet (rs : List Registration) : (p : Part) → p.Carrier → Prop
  | last
      {r : Registration} {before after : List Registration}
      (calls : rs = before ++ r :: after)
      (noLater : ∀ s ∈ after, s.part ≠ r.part) :
      LastSet rs r.part r.value
  | initial
      {p : Part}
      (noCall : ∀ r ∈ rs, r.part ≠ p) :
      LastSet rs p p.initial

end Registration

open Registration (Part LastSet)

namespace Builder

/-- Makes a call on a builder. -/
def register (b : Builder) : Registration → Builder
  | .handler route h => b.onRoute route h
  | .unknownHandler h => b.onUnknown h
  | .rejectionHandler h => b.onRejection h
  | .poolSize n => b.withPoolSize n
  | .maxBodyBytes n => b.withMaxBodyBytes n

/-- Makes calls on a builder, one after the other. -/
def registerAll (b : Builder) (rs : List Registration) : Builder :=
  rs.foldl register b

/-- What a part is set to in a builder. -/
def get (b : Builder) : (p : Part) → p.Carrier
  | .handler route => b.handlers.message route
  | .rejectionHandler => b.handlers.rejection
  | .poolSize => b.poolSize
  | .maxBodyBytes => b.maxBodyBytes

section Calls

variable {b b' : Builder} {r s : Registration} {rs : List Registration} {p : Part}

/-- Registering the handler of a route sets that route's handler. -/
theorem get_onRoute_self
    (b : Builder)
    (route : Route)
    (h : MessageHandler) :
    (b.onRoute route h).get (.handler route) = some h :=
  if_pos rfl

theorem get_register_self : (b.register r).get r.part = r.value := by
  cases r with
  | handler route h => exact b.get_onRoute_self route h
  | unknownHandler h => exact b.get_onRoute_self .unknown h
  | rejectionHandler h => rfl
  | poolSize n => rfl
  | maxBodyBytes n => rfl

/-- Registering the handler of a route leaves the other parts as they are. -/
theorem get_onRoute_of_ne
    {route : Route}
    {h : MessageHandler}
    (hp : p ≠ .handler route) :
    (b.onRoute route h).get p = b.get p := by
  cases p with
  | handler other => exact if_neg fun heq => hp (congrArg Part.handler heq)
  | _ => rfl

theorem get_register_of_ne (hp : p ≠ r.part) : (b.register r).get p = b.get p := by
  cases r with
  | handler route h => exact get_onRoute_of_ne hp
  | unknownHandler h => exact get_onRoute_of_ne hp
  | rejectionHandler h =>
      cases p with
      | rejectionHandler => exact absurd rfl hp
      | _ => rfl
  | poolSize n =>
      cases p with
      | poolSize => exact absurd rfl hp
      | _ => rfl
  | maxBodyBytes n =>
      cases p with
      | maxBodyBytes => exact absurd rfl hp
      | _ => rfl

theorem token_register : (b.register r).token = b.token := by
  cases r <;> rfl

/-- A builder is its token and its parts. -/
theorem eq_of_get
    (htoken : b.token = b'.token)
    (hget : ∀ p, b.get p = b'.get p) :
    b = b' := by
  obtain ⟨token, poolSize, maxBodyBytes, message, rejection⟩ := b
  obtain ⟨token', poolSize', maxBodyBytes', message', rejection'⟩ := b'
  obtain rfl : token = token' := htoken
  obtain rfl : poolSize = poolSize' := hget .poolSize
  obtain rfl : maxBodyBytes = maxBodyBytes' := hget .maxBodyBytes
  obtain rfl : rejection = rejection' := hget .rejectionHandler
  obtain rfl : message = message' := funext fun route => hget (.handler route)
  rfl

/-- Calls for different parts commute. -/
theorem register_comm (h : r.part ≠ s.part) :
    (b.register r).register s = (b.register s).register r := by
  refine eq_of_get (by simp only [token_register]) fun p => ?_
  by_cases hr : p = r.part
  · subst hr
    rw [get_register_of_ne h, get_register_self, get_register_self]
  by_cases hs : p = s.part
  · subst hs
    rw [get_register_self, get_register_of_ne hr, get_register_self]
  · rw [get_register_of_ne hs, get_register_of_ne hr, get_register_of_ne hr, get_register_of_ne hs]

theorem registerAll_append (b : Builder) (rs ss : List Registration) :
    b.registerAll (rs ++ ss) = (b.registerAll rs).registerAll ss :=
  List.foldl_append

theorem registerAll_cons (b : Builder) (r : Registration) (rs : List Registration) :
    b.registerAll (r :: rs) = (b.register r).registerAll rs := rfl

theorem registerAll_swap
    (b : Builder)
    (before after : List Registration)
    (h : r.part ≠ s.part) :
    b.registerAll (before ++ r :: s :: after) = b.registerAll (before ++ s :: r :: after) := by
  simp only [registerAll_append, registerAll_cons, register_comm h]

theorem token_registerAll : (b.registerAll rs).token = b.token := by
  induction rs generalizing b with
  | nil => rfl
  | cons r rs ih => rw [registerAll_cons, ih, token_register]

/-- Calls for other parts leave a part as it is. -/
theorem get_registerAll_of_ne (h : ∀ r ∈ rs, r.part ≠ p) :
    (b.registerAll rs).get p = b.get p := by
  induction rs generalizing b with
  | nil => rfl
  | cons r rs ih =>
      rw [registerAll_cons, ih fun s hs => h s (List.mem_cons_of_mem _ hs),
        get_register_of_ne (h r List.mem_cons_self).symm]

theorem lastSet_concat_of_ne
    {value : p.Carrier}
    (hp : r.part ≠ p)
    (h : LastSet rs p value) :
    LastSet (rs ++ [r]) p value := by
  cases h with
  | @last q before after calls noLater =>
      have hcalls : rs ++ [r] = before ++ q :: (after ++ [r]) := by simp [calls]
      refine .last hcalls fun s hs => ?_
      rcases List.mem_append.1 hs with hs | hs
      · exact noLater s hs
      · rwa [List.mem_singleton.1 hs]
  | initial noCall =>
      refine .initial fun s hs => ?_
      rcases List.mem_append.1 hs with hs | hs
      · exact noCall s hs
      · rwa [List.mem_singleton.1 hs]

/-- After any calls on a new builder, a part is as it was set last. -/
theorem lastSet_iff
    (token : String)
    {value : p.Carrier} :
    LastSet rs p value ↔ value = (registerAll { token := token } rs).get p := by
  constructor
  · intro h
    cases h with
    | last calls noLater =>
        rw [calls, registerAll_append, registerAll_cons, get_registerAll_of_ne noLater,
          get_register_self]
    | initial noCall =>
        rw [get_registerAll_of_ne noCall]
        cases p <;> rfl
  · rintro rfl
    induction rs using List.reverseRecOn with
    | nil =>
        have hinitial : (registerAll { token := token } []).get p = p.initial := by
          cases p <;> rfl
        rw [hinitial]
        exact .initial (List.forall_mem_nil _)
    | append_singleton rs r ih =>
        have hconcat : registerAll { token := token } (rs ++ [r]) =
            (registerAll { token := token } rs).register r :=
          registerAll_append ..
        rw [hconcat]
        by_cases hp : p = r.part
        · subst hp
          rw [get_register_self]
          exact .last rfl (List.forall_mem_nil _)
        · rw [get_register_of_ne hp]
          exact lastSet_concat_of_ne (Ne.symm hp) ih

end Calls

end Builder

namespace Dispatcher

/-- A dispatcher does what the calls on its builder say: what has been set last counts, and where
nothing has been set the standard answer is given. -/
structure Follows
    (d : Dispatcher)
    (rs : List Registration) :
    Prop where
  poolSize : LastSet rs .poolSize d.poolSize
  maxBodyBytes : LastSet rs .maxBodyBytes d.maxBodyBytes
  message
    (room : Nat)
    (pool : Pool Message)
    {x : Exchange}
    {m : Message}
    {h : MessageHandler}
    (takes : d.Takes x (.delivered m))
    (registered : LastSet rs (.handler (Route.ofMessage m)) (some h)) :
    d.CalledOnce room x.head (.message (Route.ofMessage m) m) (h room x.head m)
      (d.handle room pool x).1 ∧
    (d.handle room pool x).1.log =
      [.requestRouted (Route.ofMessage m) m.msgType m.event m.fromUserName]
  messageByDefault
    (room : Nat)
    (pool : Pool Message)
    {x : Exchange}
    {m : Message}
    (takes : d.Takes x (.delivered m))
    (unregistered : LastSet rs (.handler (Route.ofMessage m)) none) :
    d.CalledOnce room x.head (.message (Route.ofMessage m) m) (.reply (.empty 200))
      (d.handle room pool x).1 ∧
    (d.handle room pool x).1.log =
      [.requestRouted (Route.ofMessage m) m.msgType m.event m.fromUserName,
        Handlers.standardEntry (Route.ofMessage m) m]
  rejection
    (room : Nat)
    (pool : Pool Message)
    {x : Exchange}
    {e : Rejection}
    {h : RejectionHandler}
    (takes : d.Takes x (.rejected e))
    (registered : LastSet rs .rejectionHandler (some h)) :
    d.CalledOnce room x.head (.rejection e) (h room x.head e) (d.handle room pool x).1
  rejectionByDefault
    (room : Nat)
    (pool : Pool Message)
    {x : Exchange}
    {e : Rejection}
    (takes : d.Takes x (.rejected e))
    (unregistered : LastSet rs .rejectionHandler none) :
    d.CalledOnce room x.head (.rejection e) (.reply (.plainText e.status e.reason))
      (d.handle room pool x).1

/-- What is built after calls does what they say. -/
theorem follows_of_built
    {d : Dispatcher}
    {token : String}
    {rs : List Registration}
    (h : (Builder.registerAll { token := token } rs).build.1 = .ok d) :
    d.Follows rs := by
  obtain ⟨-, hlimit, hsize, hhandlers⟩ := (Builder.build_fst_eq_ok_iff _ _).1 h
  have hmessage : ∀ {route value},
      LastSet rs (.handler route) value → d.handlers.message route = value := by
    intro route value hlast
    rw [hhandlers]
    exact ((Builder.lastSet_iff token).1 hlast).symm
  have hrejection : ∀ {value},
      LastSet rs .rejectionHandler value → d.handlers.rejection = value := by
    intro value hlast
    rw [hhandlers]
    exact ((Builder.lastSet_iff token).1 hlast).symm
  refine ⟨(Builder.lastSet_iff token).2 hsize, (Builder.lastSet_iff token).2 hlimit, ?_, ?_, ?_, ?_⟩
  · intro room pool x m h htakes hlast
    refine ⟨(d.called_of_delivered room pool htakes).calledOnce (.message (hmessage hlast)), ?_⟩
    rw [log_of_delivered htakes, Handlers.actOnMessage, hmessage hlast]
  · intro room pool x m htakes hlast
    refine ⟨(d.called_of_delivered room pool htakes).calledOnce
      (.messageByDefault (hmessage hlast)), ?_⟩
    rw [log_of_delivered htakes, Handlers.actOnMessage, hmessage hlast]
  · intro room pool x e h htakes hlast
    exact (d.called_of_rejected room pool htakes).calledOnce (.rejection (hrejection hlast))
  · intro room pool x e htakes hlast
    exact (d.called_of_rejected room pool htakes).calledOnce
      (.rejectionByDefault (hrejection hlast))

end Dispatcher

namespace Builder

/-- With a token, a dispatcher is built exactly if there can be a pool of the size that was set. -/
theorem exists_built_iff
    (b : Builder) :
    (∃ d, b.build.1 = .ok d) ↔ b.token ≠ "" ∧ b.poolSize ≤ Pool.maxCapacity := by
  constructor
  · rintro ⟨d, hd⟩
    obtain ⟨htoken, -, hsize, -⟩ := (build_fst_eq_ok_iff b d).1 hd
    rw [← htoken, ← hsize]
    exact ⟨d.token_ne_empty, d.poolSize_le⟩
  · rintro ⟨htoken, hsize⟩
    exact ⟨⟨b.token, b.maxBodyBytes, b.poolSize, b.handlers, htoken, hsize⟩,
      (build_fst_eq_ok_iff b _).2 ⟨rfl, rfl, rfl, rfl⟩⟩

/-- **The last registration counts.**  After any calls on a builder each part is as it was set last.
Building fails for want of a token exactly if the token is empty; what is built does what the calls
say; and neighbouring calls for different parts may change places. -/
theorem build_registered
    (token : String)
    (rs : List Registration) :
    ((registerAll { token := token } rs).build.1 = .error .emptyToken ↔ token = "") ∧
    (∀ p, ∃! value, LastSet rs p value) ∧
    (∀ n : Nat, LastSet rs .poolSize n →
      ((∃ d, (registerAll { token := token } rs).build.1 = .ok d) ↔
        token ≠ "" ∧ n ≤ Pool.maxCapacity)) ∧
    (∀ d, (registerAll { token := token } rs).build.1 = .ok d →
      d.token = token ∧ d.Follows rs) ∧
    ∀ (before after : List Registration) (r s : Registration), r.part ≠ s.part →
      registerAll { token := token } (before ++ r :: s :: after) =
        registerAll { token := token } (before ++ s :: r :: after) := by
  have htoken : (registerAll { token := token } rs).token = token := token_registerAll
  refine ⟨?_, ?_, ?_, ?_, fun before after r s => registerAll_swap _ before after⟩
  · rw [build_fst_eq_emptyToken_iff, htoken]
  · intro p
    refine ⟨(registerAll { token := token } rs).get p, (lastSet_iff token).2 rfl, ?_⟩
    intro value hvalue
    exact (lastSet_iff token).1 hvalue
  · intro n hn
    have hsize : n = (registerAll { token := token } rs).poolSize :=
      (lastSet_iff token).1 hn
    rw [exists_built_iff, htoken, hsize]
  · intro d hd
    obtain ⟨htokenEq, -⟩ := (build_fst_eq_ok_iff _ d).1 hd
    exact ⟨htokenEq.trans htoken, Dispatcher.follows_of_built hd⟩

/-- Handlers for what is not recognised are registered under either name, with a handler of images
and two pool sizes; the ones that come last count. -/
theorem build_registered_unknown :
    let query := some (Utf8.ofString
      "signature=a0cb86810386f1333adc43d062861b27b2fe0a64&timestamp=aba&nonce=c")
    let answer (status : Nat) : MessageHandler := fun _ _ _ => .reply (.empty status)
    let rs : List Registration :=
      [.poolSize 2, .unknownHandler (answer 501), .poolSize 3, .handler .unknown (answer 502),
        .handler .image (answer 503)]
    let x : Exchange := ⟨⟨"POST", "/", query⟩, [.data (Utf8.ofString "<xml/>")]⟩
    let m := (Decoder.decode .blank (Utf8.ofString "<xml/>")).message
    LastSet rs (.handler .unknown) (some (answer 502)) ∧
    ∃ d, (registerAll { token := "ab" } rs).build.1 = .ok d ∧ d.poolSize = 3 ∧
      d.maxBodyBytes = 1048576 ∧ d.Takes x (.delivered m) ∧
      d.CalledOnce 0 x.head (.message .unknown m) (.reply (.empty 502))
        (d.handle 0 d.initialPool x).1 := by
  have hsound : (Decoder.decode .blank (Utf8.ofString "<xml/>")).fault = none := by
    decide +kernel
  have hkind :
      Route.ofMessage (Decoder.decode .blank (Utf8.ofString "<xml/>")).message = .unknown := by
    decide +kernel
  intro query answer rs x m
  have hroute : Route.ofMessage m = .unknown := hkind
  have hlast : LastSet rs (.handler .unknown) (some (answer 502)) :=
    (lastSet_iff "ab").2 rfl
  obtain ⟨-, -, hbuilt, hfollows, -⟩ := build_registered "ab" rs
  obtain ⟨d, hd⟩ := (hbuilt 3 ((lastSet_iff "ab").2 rfl)).2 ⟨by decide, by decide⟩
  obtain ⟨htoken, hd'⟩ := hfollows d hd
  have hauthentic : Authentic d.token x.head.query := htoken ▸ authentic_ab
  have hsize : d.poolSize = 3 := (lastSet_iff "ab").1 hd'.poolSize
  have hlimit : d.maxBodyBytes = 1048576 := (lastSet_iff "ab").1 hd'.maxBodyBytes
  have htakes : d.Takes x (.delivered m) :=
    .message hauthentic (by rw [hlimit]; decide) rfl hsound
  refine ⟨hlast, d, hd, hsize, hlimit, htakes, ?_⟩
  obtain ⟨hcalled, -⟩ := hd'.message 0 d.initialPool htakes (hroute ▸ hlast)
  rwa [hroute] at hcalled

end Builder

end PushGate
