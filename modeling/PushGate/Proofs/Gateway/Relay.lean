import PushGate.Proofs.Dispatcher.Balance
import PushGate.Proofs.Dispatcher.Course
import PushGate.Proofs.Dispatcher.History
import PushGate.Proofs.Gateway.Access

/-!
# Deliveries through the gateway

The gateway adds nothing to a delivery and takes nothing from it: what becomes of the request, and
of the state, is what the dispatcher makes of it.  Only the answer to an exchange whose handler has
panicked is the gateway's own.  So no panic leaves the gateway, and what comes after it is answered
as if there had been none: the pool has the same messages lent, and records ignore all else.

The one exception is the path that is lost beside the health check.  A delivery to it is answered as
if nothing were there.

**Results.**
* `SetUp.handsOn_iff`: what is handed on, by the settings.
* `handle_ignoresPool`, `handle_steady`: what one request keeps.
* `handleAll_handedOn`: a run of the gateway, seen at its deliveries, is a run of its dispatcher.
-/

namespace PushGate

/-- What an action comes to is an answer or a panic. -/
theorem Action.run_answer_ne_cancelled
    {room : Nat}
    {service : room ≠ 0 → Service}
    (action : Action room)
    (pool : Pool Message) :
    (action.run service pool).answer ≠ .cancelled := by
  induction action generalizing pool with
  | reply r => exact Answer.noConfusion
  | panic cause => exact Answer.noConfusion
  | dispatch opens x next ih => exact ih _ _

/-- An exchange is given up only if its body stalls. -/
theorem Dispatcher.stalled_of_cancelled
    {d : Dispatcher}
    {room : Nat}
    {pool : Pool Message}
    {x : Exchange}
    (h : (d.handle room pool x).1.answer = .cancelled) :
    terminator x.body = .stalled := by
  obtain ⟨course, htakes⟩ := d.takes_exists x
  have hshows : d.Shows room x.head (d.handle room pool x).1 course := shows_of_takes htakes
  cases hshows with
  | cancelled =>
      cases htakes with
      | stalled _ _ ending => exact ending
  | delivered called | rejected called =>
      obtain ⟨action, -, entered, -, hanswer⟩ := called
      rw [h] at hanswer
      exact absurd hanswer.symm (Action.run_answer_ne_cancelled _ _)

theorem Dispatcher.handle_head
    (d : Dispatcher)
    (room : Nat)
    (pool : Pool Message)
    (x : Exchange) :
    (d.handle room pool x).1.head = x.head := by
  rw [d.handle_eq_serve]
  exact d.serve_head

theorem Answer.contained_cases
    (a : Answer) :
    (∃ r, a.contained = .response r) ∨ (a = .cancelled ∧ a.contained = .cancelled) := by
  cases a with
  | response r => exact Or.inl ⟨r, rfl⟩
  | cancelled => exact Or.inr ⟨rfl, rfl⟩
  | panicked cause => exact Or.inl ⟨panicResponse, rfl⟩

/-- Containing a panic and striking out counters do not get in each other's way. -/
theorem Record.withoutCounters_contained
    (r : Record) :
    r.contained.withoutCounters = r.withoutCounters.contained := by
  cases r
  simp only [contained, withoutCounters]

namespace Gateway

/-- Whether a request is handed on to the dispatcher. -/
def handsOn
    (g : Gateway)
    (head : Head) : Bool :=
  head.method = "POST" ∧ g.locate head.path = some .webhook

section Requests

variable (g : Gateway) (room : Nat) {x : Exchange}

theorem handle_of_handsOn
    (h : g.handsOn x.head = true)
    (pool : Pool Message) :
    g.handle room pool x =
      ((g.dispatcher.handle room pool x).1.contained,
        (g.dispatcher.handle room pool x).2) := by
  rw [handsOn, decide_eq_true_eq] at h
  exact g.handle_of_located room pool h.1 h.2

theorem exists_answered_of_not_handsOn
    (h : ¬ g.handsOn x.head = true) :
    ∃ r log, ∀ pool, g.handle room pool x = answered pool x.head r log := by
  rw [handsOn, decide_eq_true_eq] at h
  exact g.exists_answered room h

/-- No panic leaves the gateway: a request is answered, or given up as its body stalls. -/
theorem handle_answers
    (pool : Pool Message)
    (x : Exchange) :
    (∃ r, (g.handle room pool x).1.answer = .response r) ∨
      (g.handle room pool x).1.answer = .cancelled ∧ terminator x.body = .stalled := by
  by_cases h : g.handsOn x.head = true
  · rw [g.handle_of_handsOn room h]
    rcases (g.dispatcher.handle room pool x).1.answer.contained_cases with
      hanswered | ⟨hcancelled, hcontained⟩
    · exact Or.inl hanswered
    · exact Or.inr ⟨hcontained, Dispatcher.stalled_of_cancelled hcancelled⟩
  · obtain ⟨r, log, hanswered⟩ := g.exists_answered_of_not_handsOn room h
    rw [hanswered]
    exact Or.inl ⟨r, rfl⟩

theorem handle_head
    (pool : Pool Message)
    (x : Exchange) :
    (g.handle room pool x).1.head = x.head := by
  by_cases h : g.handsOn x.head = true
  · rw [g.handle_of_handsOn room h]
    exact g.dispatcher.handle_head room pool x
  · obtain ⟨r, log, hanswered⟩ := g.exists_answered_of_not_handsOn room h
    rw [hanswered]
    rfl

/-- A request ignores the pool that it meets. -/
theorem handle_ignoresPool :
    (g.handle room).IgnoresPool := by
  intro p q x
  by_cases h : g.handsOn x.head = true
  · rw [g.handle_of_handsOn room h, g.handle_of_handsOn room h, Record.withoutCounters_contained,
      Record.withoutCounters_contained, g.dispatcher.handle_ignoresPool room p q x]
  · obtain ⟨r, log, hanswered⟩ := g.exists_answered_of_not_handsOn room h
    rw [hanswered, hanswered]
    simp only [answered, Record.withoutCounters, callsWithoutCounters]

/-- A request leaves as many messages lent as it finds. -/
theorem handle_steady
    {capacity active : Nat}
    {pool : Pool Message}
    (hpool : pool.Steady capacity active)
    (x : Exchange) :
    (g.handle room pool x).2.Steady capacity active := by
  by_cases h : g.handsOn x.head = true
  · rw [g.handle_of_handsOn room h]
    exact (g.dispatcher.handle_keepsBalance room capacity active pool x hpool).steady
  · obtain ⟨r, log, hanswered⟩ := g.exists_answered_of_not_handsOn room h
    rw [hanswered]
    exact hpool

end Requests

section Runs

variable (g : Gateway) (room : Nat)

theorem handleAll_cons
    (pool : Pool Message)
    (x : Exchange)
    (xs : List Exchange) :
    g.handleAll room pool (x :: xs) =
      ((g.handle room pool x).1 :: (g.handleAll room (g.handle room pool x).2 xs).1,
        (g.handleAll room (g.handle room pool x).2 xs).2) :=
  rfl

/-- A run ignores the pool that it begins with. -/
theorem handleAll_ignoresPool
    (p q : Pool Message)
    (xs : List Exchange) :
    recordsWithoutCounters (g.handleAll room p xs).1 =
      recordsWithoutCounters (g.handleAll room q xs).1 := by
  induction xs generalizing p q with
  | nil => rfl
  | cons x xs ih =>
      rw [handleAll_cons, handleAll_cons, recordsWithoutCounters, recordsWithoutCounters,
        g.handle_ignoresPool room p q x, ih _ (g.handle room q x).2]

theorem handleAll_steady
    {capacity active : Nat}
    {pool : Pool Message}
    (hpool : pool.Steady capacity active)
    (xs : List Exchange) :
    (g.handleAll room pool xs).2.Steady capacity active := by
  induction xs generalizing pool with
  | nil => exact hpool
  | cons x xs ih =>
      rw [handleAll_cons]
      exact ih (g.handle_steady room hpool x)

/-- A run of the gateway, seen at its deliveries, is a run of its dispatcher on these alone. -/
theorem handleAll_handedOn
    (pool : Pool Message)
    (xs : List Exchange) :
    (g.handleAll room pool xs).1.filter (fun record => g.handsOn record.head) =
      (g.dispatcher.handleAll room pool
        (xs.filter fun x => g.handsOn x.head)).1.map Record.contained ∧
    (g.handleAll room pool xs).2 =
      (g.dispatcher.handleAll room pool (xs.filter fun x => g.handsOn x.head)).2 := by
  induction xs generalizing pool with
  | nil => exact ⟨rfl, rfl⟩
  | cons x xs ih =>
      simp only [handleAll_cons, List.filter_cons, g.handle_head room pool x]
      by_cases h : g.handsOn x.head = true
      · obtain ⟨hrecords, hfinal⟩ := ih (g.dispatcher.handle room pool x).2
        rw [if_pos h, if_pos h, g.handle_of_handsOn room h]
        exact ⟨congrArg _ hrecords, hfinal⟩
      · obtain ⟨r, log, hanswered⟩ := g.exists_answered_of_not_handsOn room h
        rw [if_neg h, if_neg h, hanswered]
        exact ih pool

end Runs

section Settings

variable {env : Environment} {handlers : Handlers} {g : Gateway}

/-- The deliveries are handed on, but for those to the path that is lost. -/
theorem SetUp.handsOn_iff
    (h : SetUp env handlers g)
    (head : Head) :
    g.handsOn head = true ↔
      (Settings.load env).1.IsDelivery head ∧ ¬ (Settings.load env).1.Loses head.path := by
  rw [handsOn, decide_eq_true_eq, h.locate_eq_webhook_iff]
  constructor
  · rintro ⟨hposted, helsewhere, hcovered, hkept⟩
    exact ⟨⟨hposted, hcovered, helsewhere⟩, hkept⟩
  · rintro ⟨⟨hposted, hcovered, helsewhere⟩, hkept⟩
    exact ⟨hposted, helsewhere, hcovered, hkept⟩

/-- The path that is lost leads nowhere. -/
theorem SetUp.handle_of_loses
    (h : SetUp env handlers g)
    (room : Nat)
    (pool : Pool Message)
    {x : Exchange}
    (hlost : (Settings.load env).1.Loses x.head.path) :
    g.handle room pool x = answered pool x.head notFound [] := by
  have helsewhere : x.head.path ≠ healthPath := by
    intro hpath
    have hbehind := hlost.behind
    rw [hpath] at hbehind
    exact absurd hbehind (by decide)
  have hwebhook : g.locate x.head.path ≠ some .webhook := by
    rw [Ne, h.locate_eq_webhook_iff]
    exact fun hkept => hkept.2.2 hlost
  have hlocated : g.locate x.head.path = none := by
    rw [locate, if_neg helsewhere] at hwebhook ⊢
    split at hwebhook
    · exact absurd rfl hwebhook
    · rename_i hrefused
      rw [if_neg hrefused]
  simp only [handle, hlocated]

/-- **The relay.**  However a gateway is set up, no panic leaves it: each request is answered, or
given up as its body stalls.  What is handed on are the deliveries, all but those to the path that is
lost beside the health check; each comes out as the dispatcher would have left it, with an answer of
its own in place of a panic, and so does a run.  After a request, whatever came of it, as much is
lent as before, and what comes later is as if it had not been. -/
theorem handleAll_relays
    (h : SetUp env handlers g)
    (room : Nat) :
    (∀ (pool : Pool Message) (x : Exchange),
      (∃ r, (g.handle room pool x).1.answer = .response r) ∨
        (g.handle room pool x).1.answer = .cancelled ∧ terminator x.body = .stalled) ∧
    (∀ (pool : Pool Message) (x : Exchange), (Settings.load env).1.IsDelivery x.head →
      (¬ (Settings.load env).1.Loses x.head.path →
        g.handle room pool x =
          ((g.dispatcher.handle room pool x).1.contained,
            (g.dispatcher.handle room pool x).2)) ∧
      ((Settings.load env).1.Loses x.head.path →
        g.handle room pool x = answered pool x.head notFound [])) ∧
    (∀ head, g.handsOn head = true ↔
      (Settings.load env).1.IsDelivery head ∧ ¬ (Settings.load env).1.Loses head.path) ∧
    (∀ (pool : Pool Message) (xs : List Exchange),
      (g.handleAll room pool xs).1.filter (fun record => g.handsOn record.head) =
        (g.dispatcher.handleAll room pool
          (xs.filter fun x => g.handsOn x.head)).1.map Record.contained ∧
      (g.handleAll room pool xs).2 =
        (g.dispatcher.handleAll room pool (xs.filter fun x => g.handsOn x.head)).2) ∧
    ∀ (before : List Exchange) (x : Exchange) (after : List Exchange),
      let pool := (g.handleAll room g.dispatcher.initialPool before).2
      (g.handle room pool x).2.stats.inUse = pool.stats.inUse ∧
      recordsWithoutCounters (g.handleAll room (g.handle room pool x).2 after).1 =
        recordsWithoutCounters (g.handleAll room pool after).1 := by
  refine ⟨g.handle_answers room, ?_, h.handsOn_iff, g.handleAll_handedOn room, ?_⟩
  · intro pool x hdelivery
    refine ⟨fun hkept => ?_, h.handle_of_loses room pool⟩
    exact g.handle_of_handsOn room ((h.handsOn_iff x.head).2 ⟨hdelivery, hkept⟩) pool
  · intro before x after pool
    have hpool : pool.Steady g.dispatcher.poolSize 0 :=
      g.handleAll_steady room (Pool.steady_ofCapacity g.dispatcher.poolSize) before
    have hafter := g.handle_steady room hpool x
    exact ⟨hafter.inUse_eq.trans hpool.inUse_eq.symm, g.handleAll_ignoresPool room _ _ after⟩

/-- A handler that panics fails its own exchange only. -/
theorem handleAll_relays_panic :
    let env : Environment := fun
      | .token => some (Utf8.ofString "mytoken")
      | .webhookPath => some (Utf8.ofString "/hooks/:name")
      | _ => none
    let handlers : Handlers := { rejection := some fun _ _ _ => .panic "boom" }
    let g : Gateway :=
      ⟨⟨"mytoken", defaultMaxBodyBytes, defaultPoolSize, handlers, by decide, by decide⟩,
        [.literal "/hooks/".toList, .parameter]⟩
    let pool := g.dispatcher.initialPool
    let x : Exchange := ⟨⟨"POST", "/hooks/push", none⟩, []⟩
    SetUp env handlers g ∧
    (Settings.load env).1.IsDelivery x.head ∧
    ¬ (Settings.load env).1.Loses x.head.path ∧
    (g.dispatcher.handle 1 pool x).1.answer = .panicked "boom" ∧
    (g.handle 1 pool x).1.answer = .response panicResponse ∧
    (g.handle 1 pool x).2.stats.inUse = pool.stats.inUse := by
  intro env handlers g pool x
  have hload : (Settings.load env).1 =
      { Settings.default with token := "mytoken", webhookPath := "/hooks/:name" } := by
    decide +kernel
  have hsetUp : SetUp env handlers g :=
    (setUp_iff hload).2 ⟨⟨rfl, rfl, rfl, rfl⟩, by decide +kernel⟩
  have hdelivery : (Settings.load env).1.IsDelivery x.head := by
    refine ⟨rfl, ?_, by decide⟩
    rw [← PathPattern.accepts_iff_covers hsetUp.routed]
    decide
  have hkept : ¬ (Settings.load env).1.Loses x.head.path := by
    rintro ⟨hbehind, -⟩
    exact absurd hbehind (by decide)
  have hpanicked : (g.dispatcher.handle 1 pool x).1.answer = .panicked "boom" :=
    rfl
  obtain ⟨-, hrequests, -, -, hruns⟩ := handleAll_relays hsetUp 1
  have hcontained := (hrequests pool x hdelivery).1 hkept
  refine ⟨hsetUp, hdelivery, hkept, hpanicked, ?_, (hruns [] x []).1⟩
  rw [hcontained, Record.contained, hpanicked]
  rfl

/-- A webhook that takes every path does not take the path of the health check with a slash behind
it. -/
theorem handle_lost :
    let env : Environment := fun
      | .token => some (Utf8.ofString "mytoken")
      | .webhookPath => some (Utf8.ofString "/*rest")
      | _ => none
    let g : Gateway :=
      ⟨⟨"mytoken", defaultMaxBodyBytes, defaultPoolSize, {}, by decide, by decide⟩,
        [.literal ['/'], .remainder]⟩
    let pool := g.dispatcher.initialPool
    let x : Exchange := ⟨⟨"POST", "/health/", none⟩, [.data (Utf8.ofString "x")]⟩
    SetUp env {} g ∧
    (Settings.load env).1.IsDelivery x.head ∧
    (g.handle 1 pool x).1.answer = .response notFound ∧
    (g.dispatcher.handle 1 pool x).1.contained.answer =
      .response (.plainText 400 "Bad Request") := by
  intro env g pool x
  have hload : (Settings.load env).1 =
      { Settings.default with token := "mytoken", webhookPath := "/*rest" } := by
    decide +kernel
  have hsetUp : SetUp env {} g :=
    (setUp_iff hload).2 ⟨⟨rfl, rfl, rfl, rfl⟩, by decide +kernel⟩
  have hdelivery : (Settings.load env).1.IsDelivery x.head := by
    refine ⟨rfl, ?_, by decide⟩
    rw [← PathPattern.accepts_iff_covers hsetUp.routed]
    decide
  have hlost : (Settings.load env).1.Loses x.head.path := by
    rw [hload]
    exact ⟨by decide, '*', by decide, rfl⟩
  refine ⟨hsetUp, hdelivery, ?_, rfl⟩
  rw [hsetUp.handle_of_loses 1 pool hlost]
  rfl

end Settings

end Gateway
end PushGate
