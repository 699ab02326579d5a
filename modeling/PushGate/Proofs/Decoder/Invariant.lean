import PushGate.Proofs.Decoder.Continuation
import PushGate.Proofs.Decoder.Integer
import PushGate.Proofs.Decoder.Turns
import PushGate.Proofs.Markup.Unclosed

/-!
# What holds before every turn

The decoder counts the open elements, and the reader keeps their names.  Neither looks at what the other
has, but the two never differ, for whatever bytes: so an end tag is never met where the decoder counts no
element, and its field is always that of the child of the root that the reader has open.  What it has read
of a number is what stands directly in this child, and there is none of it where the child is no number's.

The events that have been taken in are a beginning of the document.  `Standing` says how state, reader and
these events belong together; one turn leads from one such triple to the next.

An accepted push has been read to the end of its root, where no element is open any more.  So the tags up to
there are nested, and each end tag has the name of its start tag.

**Results.**
* `Standing.next`, `standing_of_turns`: one turn, and all of them.
* `Standing.holds`: what holds before a turn.
* `rootNested_of_accepted`: the tags of an accepted push.
* `turns_hold`: both, for every push.
-/

namespace PushGate

open Markup (Event Reading Reader WellNested Unclosed IsElement)

/-- The open child of the root: of the open elements, the second outermost. -/
def Markup.Reader.openChild (r : Reader) : Option Bytes :=
  r.opened.reverse[1]?

namespace Decoder

/-- The events that have been taken in before a turn, the state that they have led to, and the place of the
reader behind them. -/
structure Standing (body : Bytes) (es : List Event) (s : State) (r : Reader) : Prop where
  passes : (Reader.ofBytes body).Passes es r
  tracks : Tracks (Reading.ofBytes body).events es.length s
  child : ∀ j name, ChildAt (Reading.ofBytes body).events j es.length name →
    r.openChild = some name

/-- What holds before a turn, if so many events have been taken in. -/
structure Holds (events : List Event) (i : Nat) (s : State) (r : Reader) : Prop where
  /-- The elements that are counted are those that are open. -/
  depth : s.depth = r.opened.length
  /-- An end tag is met in an element, and has its name; it ends the root only after one has been seen. -/
  endTag : ∀ name r', r.next = .ok (some (.stop name, r')) →
    1 ≤ s.depth ∧
    (s.depth = 1 → s.rootSeen = true) ∧
    r.opened = name :: r'.opened ∧
    ∃ bytes, r.rest = Markup.opening :: Markup.slash :: bytes ∧
      Markup.trimName (bytes.takeWhile (· != Markup.closing)) = name
  /-- The field is that of the open child of the root. -/
  field : s.field = r.openChild.bind fun name => Field.ofTag (Markup.localName name)
  /-- There is a field only in a child of the root. -/
  inside : s.field ≠ none → 2 ≤ s.depth
  /-- Only of a number something is put aside. -/
  number : s.scratch ≠ "" → ∃ f, s.field = some (.number f)
  /-- Of a number that is put aside which stands directly in its element so far. -/
  scratch : ∀ f, s.field = some (.number f) →
    ∃ j name, ChildAt events j i name ∧ r.openChild = some name ∧
      s.scratch = String.ofList (contentOf events j i)

/-- A document begins with an element of the root's name, behind what is no element; in it, every element
that is opened is closed by an end tag of its own name. -/
def RootNested (events : List Event) : Prop :=
  ∃ before name root later,
    events = before ++ (root ++ later) ∧
    (∀ e ∈ before, e.Flat ∧ e.isElement = false) ∧
    IsElement name root ∧
    Markup.localName name = rootName

/-- Only of a number something is put aside. -/
theorem exists_number_of_collected
    {field : Option Field}
    {content : List Char}
    (h : collected field content ≠ "") :
    ∃ f, field = some (.number f) := by
  match field with
  | some (.number f) => exact ⟨f, rfl⟩
  | some (.text f) => exact absurd rfl h
  | none => exact absurd rfl h

section Turns

variable {body : Bytes} {es : List Event} {s t : State} {r r' : Reader} {e : Event}

theorem standing_start
    (target : Message)
    (body : Bytes) :
    Standing body [] { message := target.reset } (Reader.ofBytes body) := by
  refine ⟨.here _, tracks_start _ _, ?_⟩
  intro j name hchild
  exact absurd hchild.before (Nat.not_lt_zero j)

/-- Behind an event the reader has the child open that is open in the document. -/
theorem Standing.child_next
    (h : Standing body es s r)
    (passes : (Reader.ofBytes body).Passes (es ++ [e]) r')
    (next : r.next = .ok (some (e, r')))
    (j : Nat)
    (name : Bytes)
    (hchild : ChildAt (Reading.ofBytes body).events j (es.length + 1) name) :
    r'.openChild = some name := by
  obtain ⟨hnest, -⟩ := Reader.next_nest next
  have hlength := depthAt_of_passes h.passes
  have hlength' := depthAt_of_passes passes
  rw [List.length_append, List.length_singleton] at hlength'
  rcases Nat.lt_or_eq_of_le (Nat.le_of_lt_succ hchild.before) with hlt | rfl
  · -- the child has been open before, and two elements stay open
    have hearlier : ChildAt (Reading.ofBytes body).events j es.length name :=
      ⟨hchild.start, hlt, hchild.depth, fun k hjk hk => hchild.stillOpen k hjk (by omega)⟩
    have hopen := hearlier.stillOpen es.length hlt (Nat.le_refl _)
    have hopen' := hchild.stillOpen (es.length + 1) (Nat.lt_succ_of_lt hlt) (Nat.le_refl _)
    rw [Reader.openChild, hnest, Markup.reverse_nest (by omega) (by rw [← hnest]; omega)]
    exact h.child j name hearlier
  · -- the event is the start tag of the child, directly in the root
    have hevent := getElem?_of_passes h.passes next
    obtain rfl : e = .start name := Option.some.inj (hevent.symm.trans hchild.start)
    rw [hchild.depth] at hlength
    obtain ⟨root, hroot⟩ := List.length_eq_one_iff.1 hlength.symm
    rw [Reader.openChild, hnest, hroot]
    rfl

/-- One turn. -/
theorem Standing.next
    (h : Standing body es s r)
    (next : r.next = .ok (some (e, r')))
    (step : s.step e = .reading t) :
    Standing body (es ++ [e]) t r' := by
  have hpasses := h.passes.concat next
  have haccords := step_tracks h.tracks (balanced_ofBytes body) (getElem?_of_passes h.passes next)
  rw [step] at haccords
  have hlength : (es ++ [e]).length = es.length + 1 := by simp
  refine ⟨hpasses, ?_, ?_⟩
  · rw [hlength]
    exact haccords.1
  · rw [hlength]
    exact h.child_next hpasses next

/-- All turns. -/
theorem standing_of_turns
    {target : Message}
    {i : Nat}
    (h : turns target body i = .before s r) :
    ∃ es, es.length = i ∧ Standing body es s r := by
  induction i generalizing s r with
  | zero =>
      cases h
      exact ⟨[], rfl, standing_start target body⟩
  | succ i ih =>
      obtain ⟨s₀, r₀, e, hturn, hnext, hstep⟩ := turns_succ_eq_before h
      obtain ⟨es, rfl, hstanding⟩ := ih hturn
      exact ⟨es ++ [e], by simp, hstanding.next hnext hstep⟩

section Standing

variable (h : Standing body es s r)
include h

theorem Standing.depth_eq : s.depth = r.opened.length :=
  h.tracks.depth.trans (depthAt_of_passes h.passes)

/-- An end tag is met in an element. -/
theorem Standing.endTag
    {name : Bytes}
    (next : r.next = .ok (some (.stop name, r'))) :
    1 ≤ s.depth ∧
    (s.depth = 1 → s.rootSeen = true) ∧
    r.opened = name :: r'.opened ∧
    ∃ bytes, r.rest = Markup.opening :: Markup.slash :: bytes ∧
      Markup.trimName (bytes.takeWhile (· != Markup.closing)) = name := by
  obtain ⟨hopened, hwritten⟩ := Reader.stop_spec next
  have hpos : 1 ≤ s.depth := by
    rw [h.depth_eq, hopened]
    exact Nat.succ_pos _
  exact ⟨hpos, fun _ => h.tracks.rootOpen hpos, hopened, hwritten⟩

/-- There is a field only in a child of the root. -/
theorem Standing.two_le_depth (hfield : s.field ≠ none) : 2 ≤ s.depth := by
  by_contra hlt
  exact hfield (h.tracks.outside (by omega)).1

/-- The field is that of the open child. -/
theorem Standing.field_eq :
    s.field = r.openChild.bind fun name => Field.ofTag (Markup.localName name) := by
  by_cases hdeep : 2 ≤ s.depth
  · obtain ⟨j, name, hchild, hfield, -⟩ := h.tracks.inside hdeep
    rw [h.child j name hchild]
    exact hfield
  · have hdepth := h.depth_eq
    have hnone : r.openChild = none := by
      rw [Reader.openChild, List.getElem?_eq_none_iff, List.length_reverse]
      omega
    rw [hnone]
    exact (h.tracks.outside (by omega)).1

/-- Where something has been put aside, the child is a number's. -/
theorem Standing.exists_number (hscratch : s.scratch ≠ "") : ∃ f, s.field = some (.number f) := by
  by_cases hdeep : 2 ≤ s.depth
  · obtain ⟨j, name, -, -, hcollected⟩ := h.tracks.inside hdeep
    exact exists_number_of_collected (hcollected ▸ hscratch)
  · exact absurd (h.tracks.outside (by omega)).2 hscratch

/-- In the child of a number, its content has been put aside. -/
theorem Standing.exists_content
    {f : NumberField}
    (hf : s.field = some (.number f)) :
    ∃ j name, ChildAt (Reading.ofBytes body).events j es.length name ∧
      r.openChild = some name ∧
      s.scratch = String.ofList (contentOf (Reading.ofBytes body).events j es.length) := by
  obtain ⟨j, name, hchild, -, hcollected⟩ := h.tracks.inside (h.two_le_depth (by simp [hf]))
  refine ⟨j, name, hchild, h.child j name hchild, ?_⟩
  rw [hcollected, hf]
  rfl

/-- What holds before a turn. -/
theorem Standing.holds : Holds (Reading.ofBytes body).events es.length s r :=
  ⟨h.depth_eq, fun _ _ => h.endTag, h.field_eq, h.two_le_depth, h.exists_number,
    fun _ => h.exists_content⟩

end Standing

end Turns

section Accepted

variable {body : Bytes} {target : Message} {k n : Nat}

/-- Where a push is accepted no element is open any more, and there has been one. -/
theorem closed_of_accepts
    {r : Reading}
    (h : Settles r k none) :
    ∃ n ≤ k + 1, depthAt r.events n = 0 ∧
      ∃ e ∈ r.events.take n, ¬ (e.Flat ∧ ∀ name, e ≠ .empty name) := by
  cases h with
  | @rootClosed _ name tag inRoot =>
      refine ⟨k + 1, Nat.le_refl _, ?_, .stop name, ?_, ?_⟩
      · rw [depthAt_succ_of_closes tag rfl, inRoot]
      · rw [take_succ_of_getElem? tag]
        exact List.mem_append_right _ (List.mem_singleton.2 rfl)
      · rintro ⟨⟨-, hcloses⟩, -⟩
        cases hcloses
  | ended ending outside element =>
      obtain ⟨e, he, helement⟩ := element
      refine ⟨r.events.length, Nat.le_succ _, outside, e, ?_, ?_⟩
      · rwa [List.take_length]
      · rintro ⟨⟨hopens, -⟩, hempty⟩
        cases e with
        | start name => cases hopens
        | empty name => exact hempty name rfl
        | _ => cases helement

/-- What comes before a place where no element is open is nested. -/
theorem wellNested_take
    (body : Bytes)
    (h : depthAt (Reading.ofBytes body).events n = 0) :
    WellNested ((Reading.ofBytes body).events.take n) := by
  obtain ⟨r, hpasses⟩ :
      ∃ r, (Reader.ofBytes body).Passes ((Reading.ofBytes body).events.take n) r :=
    (Reader.ofBytes body).exists_passes n
  have hlength := hpasses.length_opened
  have hstart : Unclosed (Reader.ofBytes body).opened [] := by
    rw [Reader.opened_ofBytes]
    exact .nested .nil
  have hunclosed := hpasses.unclosed hstart
  have hopened : r.opened = [] := by
    rw [Reader.opened_ofBytes, List.length_nil] at hlength
    rw [depthAt] at h
    rw [← List.length_eq_zero_iff]
    omega
  rw [hopened] at hunclosed
  exact hunclosed.wellNested

/-- Behind what neither opens nor closes an element, none is open. -/
theorem depthAt_of_flat
    {before : List Event}
    (later : List Event)
    (h : ∀ e ∈ before, e.Flat) :
    depthAt (before ++ later) before.length = 0 := by
  have hopens : before.countP Event.opens = 0 :=
    List.countP_eq_zero.2 fun e he => by simp [(h e he).1]
  rw [depthAt, List.take_left, hopens, Nat.zero_sub]

/-- An element begins with one of its tags. -/
theorem getElem?_of_isElement
    {name : Bytes}
    {root : List Event}
    (before later : List Event)
    (h : IsElement name root) :
    (before ++ (root ++ later))[before.length]? = some (.start name) ∨
      (before ++ (root ++ later))[before.length]? = some (.empty name) := by
  rw [List.getElem?_append_right (Nat.le_refl _), Nat.sub_self]
  cases h with
  | empty => exact Or.inr rfl
  | tags inner => exact Or.inl rfl

/-- The tags of an accepted push are nested up to the end of its root. -/
theorem rootNested_of_accepted
    (target : Message)
    (haccepted : (decode target body).fault = none) :
    RootNested (Reading.ofBytes body).events := by
  obtain ⟨k, hquiet, hk⟩ := exists_first target body
  obtain ⟨n, hn, hclosed, e, he, hnotFlat⟩ := closed_of_accepts ((hk none).2 haccepted.symm)
  rcases (wellNested_take body hclosed).exists_element with
    hflat | ⟨before, name, root, later, htake, hbefore, hroot⟩
  · exact absurd (hflat e he) hnotFlat
  have hevents : (Reading.ofBytes body).events =
      before ++ (root ++ (later ++ (Reading.ofBytes body).events.drop n)) := by
    rw [← List.append_assoc root, ← List.append_assoc before, ← htake, List.take_append_drop]
  refine ⟨before, name, root, _, hevents, ?_, hroot, ?_⟩
  · intro d hd
    obtain ⟨hdflat, hempty⟩ := hbefore d hd
    refine ⟨hdflat, ?_⟩
    cases d with
    | start name => exact absurd hdflat.1 (by simp [Event.opens])
    | empty name => exact absurd rfl (hempty name)
    | _ => rfl
  · -- a root of another name would have been decisive
    by_contra hother
    have htag := getElem?_of_isElement before
      (later ++ (Reading.ofBytes body).events.drop n) hroot
    have houtside := depthAt_of_flat (root ++ (later ++ (Reading.ofBytes body).events.drop n))
      fun d hd => (hbefore d hd).1
    rw [← hevents] at htag houtside
    have hsettles := Settles.wrongRoot htag houtside hother
    have hlt : before.length < n := by
      have hlength := congrArg List.length htake
      have hne : root ≠ [] := by
        cases hroot <;> simp
      have hpos := List.length_pos_iff.2 hne
      simp only [List.length_take, List.length_append] at hlength
      omega
    rcases Nat.lt_or_eq_of_le (Nat.le_of_lt_succ (Nat.lt_of_lt_of_le hlt hn)) with hlt | heq
    · exact hquiet _ hlt _ hsettles
    · rw [heq, hk, haccepted] at hsettles
      cases hsettles

end Accepted

/-- **What holds before every turn.**  Whatever the bytes, before every turn the decoder counts the elements
that the reader has open, no end tag takes it below zero, and its field and what it has put aside are those
of the open child of the root.  If the push is accepted, its tags are nested up to the end of the root. -/
theorem turns_hold
    (target : Message)
    (body : Bytes) :
    (∀ i s r, turns target body i = .before s r → Holds (Reading.ofBytes body).events i s r) ∧
    ((decode target body).fault = none → RootNested (Reading.ofBytes body).events) := by
  refine ⟨?_, rootNested_of_accepted target⟩
  intro i s r hturn
  obtain ⟨es, rfl, hstanding⟩ := standing_of_turns hturn
  exact hstanding.holds

/-- Before the end tag of a number that is written in two parts, with an element between them, both parts
have been put aside, and nothing else. -/
theorem turns_hold_joinedPush :
    let s : State :=
      { message := .blank, depth := 2, rootSeen := true, field := some .msgId, scratch := " -012" }
    let r : Reader :=
      ⟨Utf8.ofString "</MsgID></xml>", [Utf8.ofString "MsgID", Utf8.ofString "xml"]⟩
    turns .blank joinedPush 7 = .before s r ∧
    (decode .blank joinedPush).fault = none ∧
    (∃ j name, ChildAt (Reading.ofBytes joinedPush).events j 7 name ∧
      r.openChild = some name ∧
      " -012" = String.ofList (contentOf (Reading.ofBytes joinedPush).events j 7)) ∧
    RootNested (Reading.ofBytes joinedPush).events := by
  intro s r
  have hturn : turns .blank joinedPush 7 = .before s r := by
    decide +kernel
  have haccepted : (decode .blank joinedPush).fault = none := by
    decide +kernel
  obtain ⟨hholds, hnested⟩ := turns_hold .blank joinedPush
  exact ⟨hturn, haccepted, (hholds 7 s r hturn).scratch _ rfl, hnested haccepted⟩

end Decoder
end PushGate
