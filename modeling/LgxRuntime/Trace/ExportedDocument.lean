import LgxRuntime.Lib.Json
import LgxRuntime.Trace.Export
import LgxRuntime.Trace.Recording

/-!
# The exported document

The names of the events are not escaped.  The text is a JSON document with these names exactly if all of them
are plain: UTF-8 without quotation marks, backslashes and control characters.
-/

namespace LgxRuntime.Trace

open Json (Value AllPlain ReadsOnly ReadsOnlyMembers ReadsElements ReadsMembers ReadsValue skip)
open Snprintf (ascii decimal)
open Utf8 (encode IsAscii AllAscii)

/-- The element has the name of the event as its only member `name`. -/
def HasName (element : Value) (event : TraceEvent) : Prop :=
  ∃ s, element.get "name".toList = [.string s] ∧ encode s = event.name.bytes

/-- The text is a JSON document whose `traceEvents` are the events. -/
def IsDocument (text : List UInt8) (events : List TraceEvent) : Prop :=
  ∃ chars v elements, encode chars = text ∧ Json.IsText v chars ∧
    v.get "traceEvents".toList = [.array elements] ∧ List.Forall₂ HasName elements events

/-- The name can be written into a JSON string as it is. -/
def PlainName (name : CString) : Prop :=
  ∃ s, encode s = name.bytes ∧ AllPlain s

/-! ## The characters of the text -/

/-- The characters of an event in front of its name. -/
def headChars : List Char :=
  "    \x7b\n      \"name\": \"".toList

/-- The thread of an event, and its data. -/
def threadChars (event : TraceEvent) (after : List Char) : List Char :=
  "\"tid\": ".toList ++ (Nat.toDigits 10 event.threadId.toNat ++
    if event.data ≠ 0 then
      ",\n      \"args\": \x7b\"data\": ".toList ++ (Nat.toDigits 10 event.data.toNat ++
        ("\x7d\n    \x7d".toList ++ after))
    else "\n    \x7d".toList ++ after)

/-- The characters of an event behind its name. -/
def tailChars (event : TraceEvent) (after : List Char) : List Char :=
  "\",\n      \"ph\": \"".toList ++ (event.type.phase.toList ++ ("\",\n      \"ts\": ".toList ++
    (Nat.toDigits 10 (event.timestampNs / 1000).toNat ++
      (",\n      \"pid\": 1,\n      ".toList ++ threadChars event after))))

/-- The characters of an event whose name is `s`. -/
def eventChars (s : List Char) (event : TraceEvent) (after : List Char) : List Char :=
  headChars ++ (s ++ tailChars event after)

/-- The members of an event that threadChars stand for. -/
def threadMembers (event : TraceEvent) : List (List Char × Value) :=
  ("tid".toList, .number (Nat.toDigits 10 event.threadId.toNat)) ::
    if event.data ≠ 0 then
      [("args".toList, .object [("data".toList, .number (Nat.toDigits 10 event.data.toNat))])]
    else []

/-- The JSON value of an event whose name is `s`. -/
def eventValue (s : List Char) (event : TraceEvent) : Value :=
  .object (("name".toList, .string s) :: ("ph".toList, .string event.type.phase.toList) ::
    ("ts".toList, .number (Nat.toDigits 10 (event.timestampNs / 1000).toNat)) ::
    ("pid".toList, .number (Nat.toDigits 10 1)) :: threadMembers event)

variable {s after rest : List Char} {event : TraceEvent}

theorem eventValue_get (s : List Char) (event : TraceEvent) :
    (eventValue s event).get "name".toList = [.string s] := by
  unfold eventValue threadMembers
  split_ifs <;> rfl

/-- The thread of an event and its data are read. -/
theorem readsOnly_threadChars (event : TraceEvent) (after : List Char) :
    ReadsOnlyMembers (threadMembers event) (threadChars event after) after := by
  have hkey : AllPlain "tid".toList := by decide
  unfold threadMembers threadChars
  by_cases hdata : event.data ≠ 0
  · rw [if_pos hdata, if_pos hdata]
    have hargs : ReadsOnlyMembers [("data".toList, .number (Nat.toDigits 10 event.data.toNat))]
        ('"' :: ("data".toList ++ '"' :: ':' :: ' ' :: (Nat.toDigits 10 event.data.toNat ++
          '}' :: '\n' :: ' ' :: ' ' :: ' ' :: ' ' :: '}' :: after)))
        ('\n' :: ' ' :: ' ' :: ' ' :: ' ' :: '}' :: after) :=
      Json.readsOnlyMembers_number _ _ (by decide) _ (by decide) rfl
    have hobject := hargs.object ('"' :: _) rfl
    have hlast := ReadsOnly.lastMember "args".toList (' ' :: '{' :: '"' :: _) (by decide) hobject rfl
    exact hlast.number _ _ hkey _
  · rw [if_neg hdata, if_neg hdata]
    exact Json.readsOnlyMembers_number _ _ hkey _ (by decide) rfl

/-- An event with a plain name is read. -/
theorem readsOnly_eventChars (hs : AllPlain s) (event : TraceEvent) (after : List Char) :
    ReadsOnly (eventValue s event) (skip (eventChars s event after)) after := by
  have hphase : AllPlain event.type.phase.toList := by
    cases event.type <;> decide
  have hpid := ReadsOnlyMembers.number "pid".toList ("\n      ".toList ++ threadChars event after)
    (readsOnly_threadChars event after) (by decide) 1
  have hts := hpid.number "ts".toList ('\n' :: ' ' :: ' ' :: ' ' :: ' ' :: ' ' :: ' ' :: '"' :: _) (by decide)
    (event.timestampNs / 1000).toNat
  have hph := hts.string "ph".toList ('\n' :: ' ' :: ' ' :: ' ' :: ' ' :: ' ' :: ' ' :: '"' :: _) (by decide) hphase
  have hname := hph.string "name".toList ('\n' :: ' ' :: ' ' :: ' ' :: ' ' :: ' ' :: ' ' :: '"' :: _) (by decide) hs
  exact hname.object ('\n' :: ' ' :: ' ' :: ' ' :: ' ' :: ' ' :: ' ' :: '"' :: _) rfl

/-- If the element of an event is read with its name, then the name is plain. -/
theorem plain_of_readsValue {v : Value} (h : ReadsValue v (skip (eventChars s event after)) rest)
    (hname : HasName v event) (hs : encode s = event.name.bytes) : AllPlain s := by
  obtain ⟨members, rfl, hmembers⟩ :=
    ReadsValue.object_inv ('\n' :: ' ' :: ' ' :: ' ' :: ' ' :: ' ' :: ' ' :: '"' :: _) h rfl
  obtain ⟨v, members', after', rfl, hv, -⟩ := ReadsMembers.first "name".toList (by decide) hmembers
  obtain ⟨chars, rfl, hchars⟩ := ReadsValue.string_inv hv
  obtain ⟨s', hget, hs'⟩ := hname
  rw [Value.get_cons, List.cons.injEq, Value.string.injEq] at hget
  obtain ⟨rfl, -⟩ := hget
  obtain hplain | hshorter := hchars.plain_or_shorter (s := s) rfl fun _ _ => Json.not_readsString_comma
  · exact hplain
  · rw [hs, hs'] at hshorter
    exact absurd hshorter (lt_irrefl _)

/-! ## The events -/

/-- The characters of some events with their names, with commas between them. -/
def eventsChars : Bool → List (List Char × TraceEvent) → List Char → List Char
  | _, [], after => after
  | first, p :: ps, after =>
      (if !first then [',', '\n'] else []) ++ eventChars p.1 p.2 (eventsChars false ps after)

theorem skip_eventsChars_false (p : List Char × TraceEvent) (ps : List (List Char × TraceEvent))
    (after : List Char) :
    skip (eventsChars false (p :: ps) after) = ',' :: '\n' :: eventsChars true (p :: ps) after :=
  Json.skip_of_not_space rfl _

/-- The value of an event with its name. -/
def pairValue (p : List Char × TraceEvent) : Value :=
  eventValue p.1 p.2

/-- Events with plain names are read. -/
theorem readsElements_eventsChars {p : List Char × TraceEvent} {ps : List (List Char × TraceEvent)}
    (hplain : ∀ q ∈ p :: ps, AllPlain q.1) (hclose : skip after = ']' :: rest) :
    ReadsElements ((p :: ps).map pairValue) (skip (eventsChars true (p :: ps) after)) rest := by
  induction ps generalizing p with
  | nil =>
      have hp := hplain p List.mem_cons_self
      exact .last ((readsOnly_eventChars hp p.2 after _ _).mpr ⟨rfl, rfl⟩) hclose
  | cons p' ps ih =>
      have hp := hplain p List.mem_cons_self
      have hps := ih fun q hq => hplain q (List.mem_cons_of_mem _ hq)
      rw [← Json.skip_space (c := '\n') rfl] at hps
      exact .more ((readsOnly_eventChars hp p.2 _ _ _).mpr ⟨rfl, rfl⟩) (skip_eventsChars_false p' ps after) hps

/-- If events are read with their names, then the names are plain. -/
theorem plain_of_readsElements {p : List Char × TraceEvent} {ps : List (List Char × TraceEvent)}
    {elements : List Value} (h : ReadsElements elements (skip (eventsChars true (p :: ps) after)) rest)
    (hnames : List.Forall₂ HasName elements ((p :: ps).map Prod.snd))
    (hs : ∀ q ∈ p :: ps, encode q.1 = q.2.name.bytes) : ∀ q ∈ p :: ps, AllPlain q.1 := by
  induction ps generalizing p elements with
  | nil =>
      obtain ⟨v, elements', after', rfl, hv, -⟩ := h.first
      rw [List.map_cons, List.forall₂_cons] at hnames
      exact List.forall_mem_singleton.mpr (plain_of_readsValue hv hnames.1 (hs p List.mem_cons_self))
  | cons p' ps ih =>
      obtain ⟨v, elements', after', rfl, hv, hmore⟩ := h.first
      rw [List.map_cons, List.forall₂_cons] at hnames
      have hp := plain_of_readsValue hv hnames.1 (hs p List.mem_cons_self)
      obtain ⟨-, rfl⟩ := (readsOnly_eventChars hp p.2 _ _ _).mp hv
      refine List.forall_mem_cons.mpr ⟨hp, ?_⟩
      obtain rfl | ⟨next, hcomma, hmore⟩ := hmore
      · exact absurd hnames.2 (by simp)
      · rw [skip_eventsChars_false] at hcomma
        rw [← (List.cons.inj hcomma).2, Json.skip_space rfl] at hmore
        exact ih hmore hnames.2 fun q hq => hs q (List.mem_cons_of_mem _ hq)

/-! ## The document -/

/-- The characters in front of the events. -/
def documentHead : List Char :=
  "\x7b\n  \"traceEvents\": [\n".toList

/-- The characters behind the events. -/
def documentTail (t : TraceSystem) : List Char :=
  "\n  ],\n  \"metadata\": \x7b\n    \"total_events\": ".toList ++ (Nat.toDigits 10 t.totalEvents.toNat ++
    (",\n    \"dropped_events\": ".toList ++ (Nat.toDigits 10 t.ringBuffer.droppedEvents.toNat ++
      (",\n    \"buffer_capacity\": ".toList ++ (Nat.toDigits 10 t.ringBuffer.capacity.toNat ++
        "\n  \x7d\n\x7d\n".toList)))))

/-- The value of the metadata. -/
def metadataValue (t : TraceSystem) : Value :=
  .object [("total_events".toList, .number (Nat.toDigits 10 t.totalEvents.toNat)),
    ("dropped_events".toList, .number (Nat.toDigits 10 t.ringBuffer.droppedEvents.toNat)),
    ("buffer_capacity".toList, .number (Nat.toDigits 10 t.ringBuffer.capacity.toNat))]

/-- The value of the document. -/
def documentValue (t : TraceSystem) (elements : List Value) : Value :=
  .object [("traceEvents".toList, .array elements), ("metadata".toList, metadataValue t)]

/-- The metadata are read, with the end of the document. -/
theorem readsOnly_metadata (t : TraceSystem) :
    ReadsOnlyMembers [("metadata".toList, metadataValue t)] (skip ((documentTail t).drop 5)) ['\n'] := by
  have hcapacity := Json.readsOnlyMembers_number (c := '\n') "buffer_capacity".toList
    "  \x7d\n\x7d\n".toList (by decide) t.ringBuffer.capacity.toNat (by decide) rfl
  have hdropped := hcapacity.number "dropped_events".toList ('\n' :: ' ' :: ' ' :: ' ' :: ' ' :: '"' :: _) (by decide)
    t.ringBuffer.droppedEvents.toNat
  have htotal := hdropped.number "total_events".toList ('\n' :: ' ' :: ' ' :: ' ' :: ' ' :: '"' :: _) (by decide)
    t.totalEvents.toNat
  have hobject := htotal.object ('\n' :: ' ' :: ' ' :: ' ' :: ' ' :: '"' :: _) rfl
  exact hobject.lastMember "metadata".toList (' ' :: '{' :: _) (by decide) rfl

/-- The array of the events is read if their names are plain. -/
theorem readsValue_array {ps : List (List Char × TraceEvent)} (t : TraceSystem)
    (hplain : ∀ p ∈ ps, AllPlain p.1) :
    ReadsValue (.array (ps.map pairValue)) ('[' :: '\n' :: eventsChars true ps (documentTail t))
      ((documentTail t).drop 4) := by
  cases ps with
  | nil => exact .emptyArray rfl
  | cons p ps =>
      have hclose : skip (documentTail t) = ']' :: (documentTail t).drop 4 := rfl
      have helements := readsElements_eventsChars hplain hclose
      rw [← Json.skip_space (c := '\n') rfl] at helements
      exact .array helements

/-- The characters of the document. -/
def documentChars (t : TraceSystem) (ps : List (List Char × TraceEvent)) : List Char :=
  documentHead ++ eventsChars true ps (documentTail t)

theorem hasName_pairValue {p : List Char × TraceEvent} (hp : encode p.1 = p.2.name.bytes) :
    HasName (pairValue p) p.2 :=
  ⟨p.1, eventValue_get p.1 p.2, hp⟩

/-- The characters of the document are JSON with the right names exactly if these are plain. -/
theorem isText_iff {ps : List (List Char × TraceEvent)} (t : TraceSystem)
    (hs : ∀ p ∈ ps, encode p.1 = p.2.name.bytes) :
    (∃ v elements, Json.IsText v (documentChars t ps) ∧ v.get "traceEvents".toList = [.array elements] ∧
      List.Forall₂ HasName elements (ps.map Prod.snd)) ↔ ∀ p ∈ ps, AllPlain p.1 := by
  have hkey : AllPlain "traceEvents".toList := by decide
  constructor
  · rintro ⟨v, elements, ⟨rest, hread, -⟩, hget, hnames⟩
    cases ps with
    | nil => exact List.forall_mem_nil _
    | cons p ps =>
        obtain ⟨members, rfl, hmembers⟩ :=
          ReadsValue.object_inv ('\n' :: ' ' :: ' ' :: '"' :: _) hread rfl
        obtain ⟨v, members', after, rfl, hv, -⟩ := ReadsMembers.first "traceEvents".toList hkey hmembers
        obtain ⟨elements', rfl, helements⟩ :=
          ReadsValue.array_inv ('\n' :: eventsChars true (p :: ps) (documentTail t)) hv rfl
        rw [Json.skip_space rfl] at helements
        rw [Value.get_cons, List.cons.injEq, Value.array.injEq] at hget
        obtain ⟨rfl, -⟩ := hget
        exact plain_of_readsElements helements hnames hs
  · intro hplain
    have hmembers : ReadsMembers
        [("traceEvents".toList, .array (ps.map pairValue)), ("metadata".toList, metadataValue t)]
        ('"' :: ("traceEvents".toList ++ '"' :: ':' :: ' ' :: '[' :: '\n' :: eventsChars true ps (documentTail t)))
        ['\n'] := .more ((Json.readsString_iff hkey).mpr ⟨rfl, rfl⟩) rfl (readsValue_array t hplain) rfl
      ((readsOnly_metadata t _ _).mpr ⟨rfl, rfl⟩)
    refine ⟨documentValue t (ps.map pairValue), ps.map pairValue, ⟨['\n'], ?_, rfl⟩, rfl, ?_⟩
    · exact @ReadsValue.object _ ('\n' :: ' ' :: ' ' :: '"' :: _) _ hmembers
    · rw [List.forall₂_map_left_iff, List.forall₂_map_right_iff, List.forall₂_same]
      exact fun p hp => hasName_pairValue (hs p hp)

/-! ## The bytes of the document -/

theorem isAscii_toDigits (n : ℕ) : AllAscii (Nat.toDigits 10 n) := by
  intro c hc
  have hdigit := Nat.isDigit_of_mem_toDigits (by decide) (by decide) hc
  exact lt_of_le_of_lt (Char.isDigit_iff_toNat.mp hdigit).2 (by decide)

theorem decimal_eq (n : ℕ) : decimal n = encode (Nat.toDigits 10 n) :=
  (Utf8.encode_of_allAscii (isAscii_toDigits n)).symm

theorem threadChars_eq (event : TraceEvent) (after : List Char) :
    threadChars event after = threadChars event [] ++ after := by
  unfold threadChars
  split_ifs <;> simp only [List.append_assoc, List.append_nil]

theorem tailChars_eq (event : TraceEvent) (after : List Char) :
    tailChars event after = tailChars event [] ++ after := by
  unfold tailChars
  rw [threadChars_eq]
  simp only [List.append_assoc]

theorem isAscii_tailChars (event : TraceEvent) : AllAscii (tailChars event []) := by
  have hphase : AllAscii event.type.phase.toList := by
    cases event.type <;> decide
  have hthread : AllAscii (threadChars event []) := by
    unfold threadChars
    refine AllAscii.append (by decide) (AllAscii.append (isAscii_toDigits _) ?_)
    split_ifs
    · exact AllAscii.append (by decide) (AllAscii.append (isAscii_toDigits _) (by decide))
    · decide
  exact AllAscii.append (by decide) (AllAscii.append hphase (AllAscii.append (by decide)
    (AllAscii.append (isAscii_toDigits _) (AllAscii.append (by decide) hthread))))

/-- The text of an event, with the name in the middle. -/
theorem eventText_eq (event : TraceEvent) :
    eventText event = encode headChars ++ (event.name.bytes ++ encode (tailChars event [])) := by
  have hname (l : List UInt8) :
      ascii "    \x7b\n" ++ (ascii "      \"name\": \"" ++ l) = encode headChars ++ l := rfl
  have hph (l : List UInt8) :
      ascii "\",\n" ++ (ascii "      \"ph\": \"" ++ l) = encode "\",\n      \"ph\": \"".toList ++ l := rfl
  have hphase : ascii event.type.phase = encode event.type.phase.toList := by
    cases event.type <;> rfl
  have hts (l : List UInt8) :
      ascii "\",\n" ++ (ascii "      \"ts\": " ++ l) = encode "\",\n      \"ts\": ".toList ++ l := rfl
  have hpid (l : List UInt8) :
      ascii ",\n" ++ (ascii "      \"pid\": 1,\n" ++ (ascii "      \"tid\": " ++ l)) =
        encode ",\n      \"pid\": 1,\n      ".toList ++ (encode "\"tid\": ".toList ++ l) := rfl
  unfold eventText tailChars threadChars
  rw [hphase]
  split_ifs
  · simp only [decimal_eq, Utf8.encode_append, List.append_assoc, hname, hph, hts, hpid]
    rfl
  · simp only [decimal_eq, Utf8.encode_append, List.append_assoc, hname, hph, hts, hpid]
    rfl

/-- The text of the document. -/
theorem exportText_eq (t : TraceSystem) :
    t.exportText = encode documentHead ++ (eventsText true t.exported ++ encode (documentTail t)) := by
  unfold TraceSystem.exportText documentHead documentTail
  simp only [decimal_eq, Utf8.encode_append, List.append_assoc]
  rfl

theorem isAscii_documentTail (t : TraceSystem) : AllAscii (documentTail t) := by
  have hcapacity := AllAscii.append (isAscii_toDigits t.ringBuffer.capacity.toNat)
    (show AllAscii "\n  \x7d\n\x7d\n".toList by decide)
  have hdropped := AllAscii.append (isAscii_toDigits t.ringBuffer.droppedEvents.toNat)
    (AllAscii.append (show AllAscii ",\n    \"buffer_capacity\": ".toList by decide) hcapacity)
  have htotal := AllAscii.append (isAscii_toDigits t.totalEvents.toNat)
    (AllAscii.append (show AllAscii ",\n    \"dropped_events\": ".toList by decide) hdropped)
  exact AllAscii.append (by decide) htotal

/-- The text of events whose names are encoded. -/
theorem encode_eventsChars (first : Bool) (ps : List (List Char × TraceEvent)) (after : List Char)
    (hs : ∀ p ∈ ps, encode p.1 = p.2.name.bytes) :
    encode (eventsChars first ps after) = eventsText first (ps.map Prod.snd) ++ encode after := by
  induction ps generalizing first with
  | nil => rfl
  | cons p ps ih =>
      have hp := hs p List.mem_cons_self
      have hps := ih false fun q hq => hs q (List.mem_cons_of_mem _ hq)
      have hcomma : encode (if !first then [',', '\n'] else []) = if !first then ascii ",\n" else [] := by
        cases first <;> rfl
      rw [eventsChars, eventChars, tailChars_eq, List.map_cons, eventsText, eventText_eq]
      simp only [Utf8.encode_append, hcomma, hp, hps, List.append_assoc]

/-- Events can be decoded only if their names can. -/
theorem decode_eventsText {first : Bool} {events : List TraceEvent} {chars : List Char} {tail : List UInt8}
    (h : encode chars = eventsText first events ++ tail) :
    ∃ ps after, chars = eventsChars first ps after ∧ encode after = tail ∧ ps.map Prod.snd = events ∧
      ∀ p ∈ ps, encode p.1 = p.2.name.bytes := by
  induction events generalizing first chars with
  | nil => exact ⟨[], chars, rfl, h, rfl, List.forall_mem_nil _⟩
  | cons event events ih =>
      have hcomma : (if !first then ascii ",\n" else []) = encode (if !first then [',', '\n'] else []) := by
        cases first <;> rfl
      have hcomma' : AllAscii (if !first then [',', '\n'] else []) := by
        cases first <;> decide
      rw [eventsText, eventText_eq, hcomma] at h
      simp only [List.append_assoc] at h
      obtain ⟨chars, rfl, hhead⟩ := Utf8.cut_front _ hcomma' h
      obtain ⟨chars, rfl, hname⟩ := Utf8.cut_front headChars (by decide) hhead
      obtain ⟨s, rest, rfl, hs, -⟩ := Utf8.cut '"' event.name.bytes (by decide) hname
      rw [Utf8.encode_append, hs, List.append_cancel_left_eq] at hname
      obtain ⟨rest, hrest, hmore⟩ := Utf8.cut_front _ (isAscii_tailChars event) hname
      obtain ⟨ps, after, rfl, hafter, hevents, hps⟩ := ih hmore
      refine ⟨(s, event) :: ps, after, ?_, hafter, by rw [List.map_cons, hevents], ?_⟩
      · rw [eventsChars, eventChars, tailChars_eq, hrest]
      · exact List.forall_mem_cons.mpr ⟨hs, hps⟩

/-- The text can be decoded only if the names can. -/
theorem decode_exportText {t : TraceSystem} {chars : List Char} (h : encode chars = t.exportText) :
    ∃ ps, chars = documentChars t ps ∧ ps.map Prod.snd = t.exported ∧
      ∀ p ∈ ps, encode p.1 = p.2.name.bytes := by
  rw [exportText_eq] at h
  obtain ⟨chars, rfl, hmore⟩ := Utf8.cut_front documentHead (by decide) h
  obtain ⟨ps, after, rfl, hafter, hevents, hps⟩ := decode_eventsText hmore
  rw [← List.append_nil (encode (documentTail t))] at hafter
  obtain ⟨none, rfl, hnone⟩ := Utf8.cut_front _ (isAscii_documentTail t) hafter
  rw [Utf8.encode_eq_nil_iff] at hnone
  exact ⟨ps, by rw [documentChars, hnone, List.append_nil], hevents, hps⟩

theorem plainName_of_isDocument {t : TraceSystem} (h : IsDocument t.exportText t.exported) :
    ∀ event ∈ t.exported, PlainName event.name := by
  obtain ⟨chars, v, elements, hchars, htext, hget, hnames⟩ := h
  intro event hevent
  obtain ⟨ps, rfl, hevents, hps⟩ := decode_exportText hchars
  rw [← hevents] at hnames hevent
  obtain ⟨p, hp, rfl⟩ := List.mem_map.mp hevent
  exact ⟨p.1, hps p hp, (isText_iff t hps).mp ⟨v, elements, htext, hget, hnames⟩ p hp⟩

theorem isDocument_of_plainName {t : TraceSystem} (hplain : ∀ event ∈ t.exported, PlainName event.name) :
    IsDocument t.exportText t.exported := by
  choose! name hname using hplain
  have hevents : (t.exported.map fun event => (name event, event)).map Prod.snd = t.exported := by
    rw [List.map_map]
    exact List.map_id _
  have hps : ∀ p ∈ t.exported.map fun event => (name event, event), encode p.1 = p.2.name.bytes := by
    rw [List.forall_mem_map]
    exact fun event hevent => (hname event hevent).1
  have hall : ∀ p ∈ t.exported.map fun event => (name event, event), AllPlain p.1 := by
    rw [List.forall_mem_map]
    exact fun event hevent => (hname event hevent).2
  obtain ⟨v, elements, htext, hget, hnames⟩ := (isText_iff t hps).mpr hall
  rw [hevents] at hnames
  refine ⟨_, v, elements, ?_, htext, hget, hnames⟩
  rw [documentChars, Utf8.encode_append, encode_eventsChars true _ _ hps, hevents, ← exportText_eq]

/-- The exported text is a JSON document with the names of the exported events exactly if all of these names
are plain. -/
theorem isDocument_iff (t : TraceSystem) :
    IsDocument t.exportText t.exported ↔ ∀ event ∈ t.exported, PlainName event.name :=
  ⟨plainName_of_isDocument, isDocument_of_plainName⟩

/-- A name with a quotation mark is not plain. -/
theorem not_plainName_of_quote {name : CString} (h : 34 ∈ name.bytes) : ¬ PlainName name := by
  rintro ⟨s, hs, hplain⟩
  obtain ⟨left, right, hbytes⟩ := List.append_of_mem h
  rw [hbytes] at hs
  obtain ⟨before, after, rfl, -, -⟩ := Utf8.cut '"' _ (by decide) hs
  exact Json.not_isPlain_quote (hplain '"' (List.mem_append_right _ List.mem_cons_self))

/-- An event whose name is a quotation mark is recorded, and the text is no such document. -/
theorem not_isDocument_quote :
    ∃ t, runAll [.traceEnable true, .traceInstant (some ⟨[34], by decide⟩) 0 1000 7] (some .init) = some t ∧
      ¬ IsDocument t.exportText t.exported := by
  refine ⟨_, rfl, fun h => ?_⟩
  have hplain := plainName_of_isDocument h ⟨.traceInstant, ⟨[34], by decide⟩, 1000, 7, 0⟩ List.mem_cons_self
  exact not_plainName_of_quote List.mem_cons_self hplain

end LgxRuntime.Trace
