import PushGate.Markup.Event

/-!
# Reading markup

A reader stands between two events of a document: it holds the bytes that are still to come and
the names of the elements that are open, the innermost first.  It checks that end tags match start
tags and looks no deeper than that: attributes and the order of declarations are not examined.

**Events.**
* Bytes up to the next `<` are character data.
* `<!--` runs to `-->`, `<![CDATA[` to `]]>`, and `<!DOCTYPE` to the first `>` before which as many
  `>` as `<` have come.
* `<?` and `</` run to the next `>` or to the end of the input.
* Any other tag runs to the first `>` outside quotes; a slash before it makes the element empty.

**Results.**
* `next_length`: every event uses up at least one byte.
* `read_eq`: the events of a document are its first event and those of what follows it.
* `length_events_le`: a document has no more events than bytes.
-/

namespace PushGate
namespace Markup

/-- The byte `<`. -/
abbrev opening : UInt8 := 0x3C

/-- The byte `>`. -/
abbrev closing : UInt8 := 0x3E

abbrev slash : UInt8 := 0x2F

abbrev question : UInt8 := 0x3F

abbrev bang : UInt8 := 0x21

/-- White space of markup: the space, the tab and the two line ends. -/
def isBlankByte (b : UInt8) : Bool :=
  b == 0x20 || b == 0x09 || b == 0x0D || b == 0x0A

/-! ## Cutting bytes -/

/-- What stands before the first occurrence of a mark and what follows it, after the bytes `done`
(latest first). -/
def breakOn (mark done : Bytes) : Bytes → Option (Bytes × Bytes)
  | [] => none
  | b :: rest =>
      if mark.isPrefixOf (b :: rest) then
        some (done.reverse, (b :: rest).drop mark.length)
      else breakOn mark (b :: done) rest

section BreakAtClosing

variable {σ : Type} (step : σ → UInt8 → σ) (closes : σ → Bool)

/-- What stands before the first `>` that is met in a closing state and what follows it, from
state `s` and after the bytes `done` (latest first). -/
def breakAtClosing (s : σ) (done : Bytes) : Bytes → Option (Bytes × Bytes)
  | [] => none
  | b :: rest =>
      if b == closing && closes s then some (done.reverse, rest)
      else breakAtClosing (step s b) (b :: done) rest

end BreakAtClosing

/-- The quote that is open after a byte of a tag. -/
def quoteAfter (quote : Option UInt8) (b : UInt8) : Option UInt8 :=
  match quote with
  | none => if b = 0x22 ∨ b = 0x27 then some b else none
  | some q => if b = q then none else some q

/-- How many more `<` than `>` there are after a byte of a document type declaration. -/
def nestingAfter (nesting : Nat) (b : UInt8) : Nat :=
  if b = opening then nesting + 1
  else if b = closing then nesting - 1
  else nesting

/-- The lowercase of an ASCII capital; other bytes as they are. -/
def lowerByte (b : UInt8) : UInt8 :=
  if 0x41 ≤ b ∧ b ≤ 0x5A then b + 0x20 else b

/-- What follows a word, which may be written in either case, at the beginning of the bytes. -/
def after? (word : String) (bytes : Bytes) : Option Bytes :=
  let mark := Utf8.ofString word
  if (bytes.take mark.length).map lowerByte = mark.map lowerByte then
    some (bytes.drop mark.length)
  else none

/-- Bytes without the white space at their end; all of them if they are nothing else. -/
def trimName (bytes : Bytes) : Bytes :=
  match bytes.reverse.dropWhile isBlankByte with
  | [] => bytes
  | rest => rest.reverse

def tagName (content : Bytes) : Bytes :=
  content.takeWhile fun b => !isBlankByte b

/-! ## The reader -/

/-- A place between two events of a document. -/
structure Reader where
  rest : Bytes
  /-- The names of the open elements, the innermost first. -/
  opened : List Bytes
deriving DecidableEq

namespace Reader

/-- The beginning of a document, behind its byte order mark if it has one. -/
def ofBytes : Bytes → Reader
  | 0xEF :: 0xBB :: 0xBF :: rest => ⟨rest, []⟩
  | bytes => ⟨bytes, []⟩

/-- After `<!--`, of which the dashes are still to come. -/
def comment (bytes : Bytes) : Except Error (Event × Bytes) :=
  match (after? "--" bytes).bind (breakOn (Utf8.ofString "-->") []) with
  | some (_, rest) => .ok (.comment, rest)
  | none => .error (.unexpectedEnd .comment)

/-- After `<![CDATA[`, of which all from the bracket on is still to come. -/
def cdata (bytes : Bytes) : Except Error (Event × Bytes) :=
  match (after? "[CDATA[" bytes).bind (breakOn (Utf8.ofString "]]>") []) with
  | some (content, rest) => .ok (.cdata content, rest)
  | none => .error (.unexpectedEnd .cdata)

/-- After `<!DOCTYPE`, of which the word is still to come. -/
def doctype (bytes : Bytes) : Except Error (Event × Bytes) :=
  match (after? "DOCTYPE" bytes).bind (breakAtClosing nestingAfter (· == 0) 0 []) with
  | some (content, rest) =>
      if content.all isBlankByte then .error .emptyDoctype else .ok (.doctype, rest)
  | none => .error (.unexpectedEnd .doctype)

/-- After `<!`. -/
def declaration : Bytes → Except Error (Event × Bytes)
  | [] => .error (.unexpectedEnd .bang)
  | b :: rest =>
      if b = 0x5B then cdata (b :: rest)
      else if b = 0x2D then comment (b :: rest)
      else if b = 0x44 ∨ b = 0x64 then doctype (b :: rest)
      else .error (.unexpectedBang b)

/-- After `<?`. -/
def instruction (bytes : Bytes) : Except Error (Event × Bytes) :=
  let content := bytes.takeWhile (· != closing)
  if 2 ≤ content.length ∧ content.getLast? = some question then
    .ok (.instruction, (bytes.dropWhile (· != closing)).tail)
  else .error (.unexpectedEnd .instruction)

/-- After `</`, where the elements `opened` are open. -/
def endTag (opened : List Bytes) (bytes : Bytes) : Except Error (Event × Reader) :=
  let content := bytes.takeWhile (· != closing)
  match opened with
  | [] => .error (.endMismatch [] content)
  | name :: outer =>
      if trimName content = name then
        .ok (.stop name, ⟨(bytes.dropWhile (· != closing)).tail, outer⟩)
      else .error (.endMismatch name (trimName content))

/-- After `<`, where the elements `opened` are open and the tag is none of the above. -/
def startTag (opened : List Bytes) (bytes : Bytes) : Except Error (Event × Reader) :=
  match breakAtClosing quoteAfter Option.isNone none [] bytes with
  | none => .error (.unexpectedEnd .element)
  | some (content, rest) =>
      if content.getLast? = some slash then
        .ok (.empty (tagName content.dropLast), ⟨rest, opened⟩)
      else .ok (.start (tagName content), ⟨rest, tagName content :: opened⟩)

/-- After `<`, where the elements `opened` are open and `b` is the next byte. -/
def markup (opened : List Bytes) (b : UInt8) (rest : Bytes) : Except Error (Event × Reader) :=
  if b = bang then (declaration rest).map fun (event, rest) => (event, ⟨rest, opened⟩)
  else if b = slash then endTag opened rest
  else if b = question then (instruction rest).map fun (event, rest) => (event, ⟨rest, opened⟩)
  else startTag opened (b :: rest)

/-- The next event and the place behind it; nothing at the end of the input, for which a `<`
without anything behind it counts too. -/
def next (r : Reader) : Except Error (Option (Event × Reader)) :=
  match r.rest with
  | [] => .ok none
  | b :: rest =>
      if b = opening then
        match rest with
        | [] => .ok none
        | c :: rest => (markup r.opened c rest).map some
      else
        .ok (some (.text (r.rest.takeWhile (· != opening)),
          ⟨r.rest.dropWhile (· != opening), r.opened⟩))

end Reader

/-! ## Progress -/

section Progress

theorem breakOn_length {mark done bytes before rest : Bytes}
    (h : breakOn mark done bytes = some (before, rest)) : rest.length ≤ bytes.length := by
  induction bytes generalizing done with
  | nil => simp [breakOn] at h
  | cons b bytes ih =>
      rw [breakOn] at h
      split at h
      · simp only [Option.some.injEq, Prod.mk.injEq] at h
        rw [← h.2, List.length_drop]
        omega
      · have := ih h
        simp only [List.length_cons]
        omega

theorem breakAtClosing_length {σ : Type} {step : σ → UInt8 → σ} {closes : σ → Bool} {s : σ}
    {done bytes before rest : Bytes}
    (h : breakAtClosing step closes s done bytes = some (before, rest)) :
    rest.length < bytes.length := by
  induction bytes generalizing s done with
  | nil => simp [breakAtClosing] at h
  | cons b bytes ih =>
      rw [breakAtClosing] at h
      split at h
      · simp only [Option.some.injEq, Prod.mk.injEq] at h
        rw [← h.2]
        simp
      · have := ih h
        simp only [List.length_cons]
        omega

theorem after?_length {word : String} {bytes rest : Bytes} (h : after? word bytes = some rest) :
    rest.length ≤ bytes.length := by
  simp only [after?] at h
  split at h
  · simp only [Option.some.injEq] at h
    rw [← h, List.length_drop]
    omega
  · simp at h

theorem dropWhile_length (p : UInt8 → Bool) (bytes : Bytes) :
    (bytes.dropWhile p).length ≤ bytes.length :=
  (List.dropWhile_sublist p).length_le

namespace Reader

theorem comment_length {bytes rest : Bytes} {event : Event}
    (h : comment bytes = .ok (event, rest)) : rest.length ≤ bytes.length := by
  unfold comment at h
  split at h
  · rename_i before rest' hbind
    obtain ⟨inner, hafter, hbreak⟩ := Option.bind_eq_some_iff.1 hbind
    cases h
    exact Nat.le_trans (breakOn_length hbreak) (after?_length hafter)
  · simp at h

theorem cdata_length {bytes rest : Bytes} {event : Event}
    (h : cdata bytes = .ok (event, rest)) : rest.length ≤ bytes.length := by
  unfold cdata at h
  split at h
  · rename_i before rest' hbind
    obtain ⟨inner, hafter, hbreak⟩ := Option.bind_eq_some_iff.1 hbind
    cases h
    exact Nat.le_trans (breakOn_length hbreak) (after?_length hafter)
  · simp at h

theorem doctype_length {bytes rest : Bytes} {event : Event}
    (h : doctype bytes = .ok (event, rest)) : rest.length ≤ bytes.length := by
  unfold doctype at h
  split at h
  · rename_i before rest' hbind
    obtain ⟨inner, hafter, hbreak⟩ := Option.bind_eq_some_iff.1 hbind
    split at h
    · simp at h
    · cases h
      exact Nat.le_trans (Nat.le_of_lt (breakAtClosing_length hbreak)) (after?_length hafter)
  · simp at h

theorem declaration_length {bytes rest : Bytes} {event : Event}
    (h : declaration bytes = .ok (event, rest)) : rest.length ≤ bytes.length := by
  unfold declaration at h
  split at h
  · simp at h
  split at h
  · exact cdata_length h
  split at h
  · exact comment_length h
  split at h
  · exact doctype_length h
  · simp at h

theorem instruction_length {bytes rest : Bytes} {event : Event}
    (h : instruction bytes = .ok (event, rest)) : rest.length ≤ bytes.length := by
  simp only [instruction] at h
  split at h
  · cases h
    rw [List.length_tail]
    have := dropWhile_length (· != closing) bytes
    omega
  · simp at h

theorem endTag_length {opened : List Bytes} {bytes : Bytes} {event : Event} {r : Reader}
    (h : endTag opened bytes = .ok (event, r)) : r.rest.length ≤ bytes.length := by
  simp only [endTag] at h
  split at h
  · simp at h
  split at h
  · cases h
    simp only [List.length_tail]
    have := dropWhile_length (· != closing) bytes
    omega
  · simp at h

theorem startTag_length {opened : List Bytes} {bytes : Bytes} {event : Event} {r : Reader}
    (h : startTag opened bytes = .ok (event, r)) : r.rest.length < bytes.length := by
  unfold startTag at h
  split at h
  · simp at h
  · rename_i content rest hbreak
    have := breakAtClosing_length hbreak
    split at h
    · cases h
      exact this
    · cases h
      exact this

theorem markup_length {opened : List Bytes} {b : UInt8} {rest : Bytes} {event : Event} {r : Reader}
    (h : markup opened b rest = .ok (event, r)) : r.rest.length ≤ rest.length := by
  unfold markup at h
  split at h
  · cases hd : declaration rest with
    | error e => simp [hd, Except.map] at h
    | ok p =>
        obtain ⟨event', rest'⟩ := p
        rw [hd] at h
        cases h
        exact declaration_length hd
  split at h
  · exact endTag_length h
  split at h
  · cases hd : instruction rest with
    | error e => simp [hd, Except.map] at h
    | ok p =>
        obtain ⟨event', rest'⟩ := p
        rw [hd] at h
        cases h
        exact instruction_length hd
  · have := startTag_length h
    simp only [List.length_cons] at this
    omega

/-- Every event uses up at least one byte. -/
theorem next_length {r r' : Reader} {event : Event} (h : r.next = .ok (some (event, r'))) :
    r'.rest.length < r.rest.length := by
  unfold next at h
  split at h
  · simp at h
  · rename_i b rest hrest
    split at h
    · split at h
      · simp at h
      · rename_i c rest'
        cases hm : markup r.opened c rest' with
        | error e => simp [hm, Except.map] at h
        | ok p =>
            rw [hm] at h
            cases h
            have := markup_length hm
            rw [hrest]
            simp only [List.length_cons]
            omega
    · rename_i hne
      cases h
      rw [hrest, List.dropWhile_cons_of_pos (by simpa using hne)]
      have := dropWhile_length (· != opening) rest
      simp only [List.length_cons]
      omega

end Reader

end Progress

/-! ## Whole documents -/

/-- How the events of a document end. -/
inductive Ending where
  | finished
  | malformed (e : Error)
deriving DecidableEq

/-- All that a reader finds. -/
structure Reading where
  events : List Event
  ending : Ending
deriving DecidableEq

namespace Reader

/-- Reads to the end, after the events `done` (latest first). -/
def readFrom (done : List Event) (r : Reader) : Reading :=
  match _h : r.next with
  | .error e => ⟨done.reverse, .malformed e⟩
  | .ok none => ⟨done.reverse, .finished⟩
  | .ok (some (event, r')) => readFrom (event :: done) r'
termination_by r.rest.length
decreasing_by exact next_length _h

def read (r : Reader) : Reading :=
  readFrom [] r

theorem readFrom_eq (done : List Event) (r : Reader) :
    readFrom done r = ⟨done.reverse ++ r.read.events, r.read.ending⟩ := by
  suffices ∀ (n : Nat) (r : Reader), r.rest.length = n → ∀ done,
      readFrom done r = ⟨done.reverse ++ (readFrom [] r).events, (readFrom [] r).ending⟩ from
    this _ r rfl done
  intro n
  induction n using Nat.strongRecOn with
  | ind n ih =>
      intro r hn done
      rw [readFrom, readFrom]
      cases hnext : r.next with
      | error e => simp
      | ok found =>
          cases found with
          | none => simp
          | some p =>
              obtain ⟨event, r'⟩ := p
              have hlt := next_length hnext
              simp only
              rw [ih _ (hn ▸ hlt) r' rfl (event :: done), ih _ (hn ▸ hlt) r' rfl [event]]
              simp

/-- The events of a document are its first event and those of what follows it. -/
theorem read_eq (r : Reader) :
    r.read =
      match r.next with
      | .error e => ⟨[], .malformed e⟩
      | .ok none => ⟨[], .finished⟩
      | .ok (some (event, r')) => ⟨event :: r'.read.events, r'.read.ending⟩ := by
  rw [read, readFrom]
  cases hnext : r.next with
  | error e => simp
  | ok found =>
      cases found with
      | none => simp
      | some p => simp [readFrom_eq]

/-- A document has no more events than bytes. -/
theorem length_events_le (r : Reader) : r.read.events.length ≤ r.rest.length := by
  suffices ∀ (n : Nat) (r : Reader), r.rest.length = n → r.read.events.length ≤ n from
    this _ r rfl
  intro n
  induction n using Nat.strongRecOn with
  | ind n ih =>
      intro r hn
      rw [read_eq]
      cases hnext : r.next with
      | error e => simp
      | ok found =>
          cases found with
          | none => simp
          | some p =>
              obtain ⟨event, r'⟩ := p
              have hlt := next_length hnext
              have := ih _ (hn ▸ hlt) r' rfl
              simp only [List.length_cons]
              omega

end Reader

def Reading.ofBytes (bytes : Bytes) : Reading :=
  (Reader.ofBytes bytes).read

end Markup
end PushGate
