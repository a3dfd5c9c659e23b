import LgxRuntime.Lib.Interleaving
import LgxRuntime.Lib.Ring
import LgxRuntime.Telemetry.Process

/-!
# The events of the telemetry process

No event is lost as long as one thread at a time writes an event, from the index that is still the current
one, and the reader stops when it has read everything and nobody is writing.  The invariant says which events
lie in the slots: those from the number of reads up to the number of stores, which differ by no more than the
size of the ring, so that the indices can be told apart although they wrap around.
-/

namespace LgxRuntime.Telemetry.Process

open Function (update update_self update_of_ne)
open Interleaving (forall_update of_update eq_of_update)

variable {Thread : Type} [DecidableEq Thread]

/-! ## The indices -/

theorem wrap64_mod (n : ℕ) : wrap64 n % telemetryRingSize = n % telemetryRingSize :=
  Nat.mod_mod_of_dvd n ⟨2 ^ 51, by decide⟩

section

variable {R W : ℕ}

theorem wrap64_eq_iff (hlow : R ≤ W) (hhigh : W ≤ R + telemetryRingSize) : wrap64 R = wrap64 W ↔ R = W := by
  unfold wrap64 telemetryRingSize at *
  omega

/-- A thread that finds room has room. -/
theorem lt_of_sub64_lt (hlow : R ≤ W) (hhigh : W ≤ R + telemetryRingSize)
    (hroom : sub64 (wrap64 W) (wrap64 R) < telemetryRingSize) : W < R + telemetryRingSize := by
  unfold sub64 wrap64 telemetryRingSize at *
  omega

/-- The next slot to be written is none of those that have not been read. -/
theorem slot_ne {i : ℕ} (hlow : R ≤ i) (hi : i < W) (hroom : W < R + telemetryRingSize) :
    i % telemetryRingSize ≠ wrap64 W % telemetryRingSize := by
  rw [wrap64_mod]
  unfold telemetryRingSize at *
  omega

end

/-! ## The invariant -/

/-- What a thread knows at its place, when `W` events were stored and `R` of them were read. -/
def WriterOk (slots : ℕ → Option Record) (R W : ℕ) : WriterPc → Prop
  | .loadRead _ writeIdx stores => writeIdx = wrap64 stores ∧ stores ≤ W
  | .copy _ writeIdx stores =>
      writeIdx = wrap64 stores ∧ stores ≤ W ∧ (stores = W → W < R + telemetryRingSize)
  | .finishCopy _ writeIdx => writeIdx = wrap64 W ∧ W < R + telemetryRingSize
  | .store record writeIdx =>
      writeIdx = wrap64 W ∧ W < R + telemetryRingSize ∧ slots (writeIdx % telemetryRingSize) = some record
  | _ => True

/-- What the reader knows at its place. -/
def ReaderOk (slots : ℕ → Option Record) (R W : ℕ) : ReaderPc → Prop
  | .loadWrite readIdx => readIdx = wrap64 R
  | .readType readIdx => readIdx = wrap64 R ∧ R < W
  | .readData readIdx seen => readIdx = wrap64 R ∧ R < W ∧ seen = slots (readIdx % telemetryRingSize)
  | .store readIdx => readIdx = wrap64 R ∧ R < W
  | _ => True

/-- The number of events that are aggregated but not yet counted as read. -/
def ReaderPc.ahead : ReaderPc → ℕ
  | .store _ => 1
  | _ => 0

/-- `R` events were read, the events that are left lie in their slots, and one thread at most is writing
another one. -/
structure IntactAt (R : ℕ) (s : State Thread) : Prop where
  writeIndex : s.writeIndex = wrap64 s.stored.length
  readIndex : s.readIndex = wrap64 R
  indices : s.stored.map Prod.fst = (List.range s.stored.length).map wrap64
  low : R ≤ s.stored.length
  high : s.stored.length ≤ R + telemetryRingSize
  slots : ∀ i entry, R ≤ i → s.stored[i]? = some entry → s.slots (i % telemetryRingSize) = some entry.2
  writers : ∀ u, WriterOk s.slots R s.stored.length (s.writer u)
  alone : ∀ u v, (s.writer u).Writing → (s.writer v).Writing → u = v
  reader : ReaderOk s.slots R s.stored.length s.reader
  exited : s.reader = .exited → R = s.stored.length ∧ ∀ u, ¬ (s.writer u).Writing
  aggregated : s.aggregated = (s.stored.take (R + s.reader.ahead)).map fun entry => some entry.2
  stats : s.stats = (s.stored.take (R + s.reader.ahead)).foldl (fun stats entry => aggregate stats entry.2.event)
    ⟨0, 0.0, 0.0, 0⟩
  returned : (s.stored.map Prod.snd ++ s.dropped).Perm s.returned
  dropped : s.droppedEvents = wrap64 s.dropped.length

/-- The invariant. -/
def Intact (s : State Thread) : Prop :=
  ∃ R, IntactAt R s

omit [DecidableEq Thread] in
theorem Initial.intact {s : State Thread} (h : Initial s) : Intact s := by
  subst h
  exact ⟨0,
    { writeIndex := rfl
      readIndex := rfl
      indices := rfl
      low := Nat.le_refl 0
      high := Nat.zero_le _
      slots := fun i entry _ hi => by cases hi
      writers := fun _ => trivial
      alone := fun _ _ hu _ => hu.elim
      reader := trivial
      exited := fun hexit => by cases hexit
      aggregated := rfl
      stats := rfl
      returned := List.Perm.refl []
      dropped := rfl }⟩

/-! ## The steps of a thread -/

section

variable {R : ℕ} {s : State Thread} {t : Thread}

omit [DecidableEq Thread] in
/-- Nobody writes but the thread that moves on. -/
theorem IntactAt.other_idle (h : IntactAt R s) (ht : (s.writer t).Writing) {u : Thread} (hut : u ≠ t) :
    ¬ (s.writer u).Writing :=
  fun hu => hut (h.alone u t hu ht)

omit [DecidableEq Thread] in
theorem IntactAt.not_exited (h : IntactAt R s) (ht : (s.writer t).Writing) : s.reader ≠ .exited :=
  fun hexit => (h.exited hexit).2 t ht

/-- A thread moves on and does not write. -/
theorem IntactAt.goto (h : IntactAt R s) {pc : WriterPc} (hpc : WriterOk s.slots R s.stored.length pc)
    (hquiet : ¬ pc.Writing) : IntactAt R (s.goto t pc) :=
  { h with
    writers := forall_update h.writers (fun _ _ hu => hu) hpc
    alone := fun u v hu hv => h.alone u v (of_update hquiet hu) (of_update hquiet hv)
    exited := fun hexit => by
      obtain ⟨hR, hidle⟩ := h.exited hexit
      exact ⟨hR, fun u hu => hidle u (of_update hquiet hu)⟩ }

/-- What a thread knows that does not write is not about the slots. -/
theorem WriterOk.of_not_writing {slots slots' : ℕ → Option Record} {W W' : ℕ} {pc : WriterPc}
    (hok : WriterOk slots R W pc) (hquiet : ¬ pc.Writing) (hW : W = W' ∨ W < W') : WriterOk slots' R W' pc := by
  cases pc with
  | loadRead record writeIdx stores => exact ⟨hok.1, hok.2.trans (by omega)⟩
  | copy record writeIdx stores =>
      obtain ⟨hidx, hle, hroom⟩ := hok
      exact ⟨hidx, by omega, fun heq => by omega⟩
  | finishCopy record writeIdx => exact absurd trivial hquiet
  | store record writeIdx => exact absurd trivial hquiet
  | _ => trivial

theorem WriterOk.of_le {slots : ℕ → Option Record} {W : ℕ} {pc : WriterPc} (hok : WriterOk slots R W pc) :
    WriterOk slots (R + 1) W pc := by
  cases pc with
  | copy record writeIdx stores => exact ⟨hok.1, hok.2.1, fun heq => by have := hok.2.2 heq; omega⟩
  | finishCopy record writeIdx => exact ⟨hok.1, by have := hok.2; omega⟩
  | store record writeIdx => exact ⟨hok.1, by have := hok.2.1; omega, hok.2.2⟩
  | _ => exact hok

/-- The thread that writes changes its slot, where no event is left. -/
theorem IntactAt.write (h : IntactAt R s) {pc : WriterPc} {value : Option Record}
    (hothers : ∀ u, u ≠ t → ¬ (s.writer u).Writing) (hroom : s.stored.length < R + telemetryRingSize)
    (hruns : s.reader ≠ .exited)
    (hpc : WriterOk (update s.slots (wrap64 s.stored.length % telemetryRingSize) value) R s.stored.length pc) :
    IntactAt R { s.goto t pc with
      slots := update s.slots (wrap64 s.stored.length % telemetryRingSize) value } := by
  have hkept : ∀ i, R ≤ i → i < s.stored.length →
      update s.slots (wrap64 s.stored.length % telemetryRingSize) value (i % telemetryRingSize)
        = s.slots (i % telemetryRingSize) :=
    fun i hlow hi => update_of_ne (slot_ne hlow hi hroom) ..
  refine { h with slots := ?_, writers := ?_, alone := ?_, reader := ?_, exited := ?_ }
  · intro i entry hlow hi
    exact (hkept i hlow (List.getElem?_eq_some_iff.mp hi).1).trans (h.slots i entry hlow hi)
  · exact forall_update h.writers
      (fun u hut hok => hok.of_not_writing (hothers u hut) (Or.inl rfl)) hpc
  · intro u v hu hv
    exact (eq_of_update hothers hu).trans (eq_of_update hothers hv).symm
  · have hreader := h.reader
    show ReaderOk _ R s.stored.length s.reader
    cases hpc : s.reader with
    | readData readIdx seen =>
        rw [hpc] at hreader
        obtain ⟨rfl, hlt, hseen⟩ := hreader
        refine ⟨rfl, hlt, hseen.trans ?_⟩
        rw [wrap64_mod]
        exact (hkept R (Nat.le_refl R) hlt).symm
    | _ =>
        rw [hpc] at hreader
        exact hreader
  · exact fun hexit => absurd hexit hruns

theorem ReaderOk.of_lt {slots : ℕ → Option Record} {W : ℕ} {pc : ReaderPc} (h : ReaderOk slots R W pc) :
    ReaderOk slots R (W + 1) pc := by
  cases pc with
  | readType readIdx => exact ⟨h.1, Nat.lt_succ_of_lt h.2⟩
  | readData readIdx seen => exact ⟨h.1, Nat.lt_succ_of_lt h.2.1, h.2.2⟩
  | store readIdx => exact ⟨h.1, Nat.lt_succ_of_lt h.2⟩
  | _ => exact h

omit [DecidableEq Thread] in
theorem IntactAt.ahead_le (h : IntactAt R s) : R + s.reader.ahead ≤ s.stored.length := by
  have hreader := h.reader
  cases hpc : s.reader with
  | store readIdx =>
      rw [hpc] at hreader
      exact hreader.2
  | _ => exact h.low

/-- The thread publishes its event. -/
theorem IntactAt.publish (h : IntactAt R s) {record : Record} {writeIdx : ℕ}
    (ht : s.writer t = .store record writeIdx) :
    IntactAt R { s.goto t .idle with
      writeIndex := wrap64 (writeIdx + 1)
      stored := s.stored ++ [(writeIdx, record)]
      returned := s.returned ++ [record] } := by
  have hwriting : (s.writer t).Writing := by rw [ht]; trivial
  have hok := h.writers t
  rw [ht] at hok
  obtain ⟨rfl, hroom, hslot⟩ := hok
  have hlength : (s.stored ++ [(wrap64 s.stored.length, record)]).length = s.stored.length + 1 :=
    List.length_append
  have htake : (s.stored ++ [(wrap64 s.stored.length, record)]).take (R + s.reader.ahead)
      = s.stored.take (R + s.reader.ahead) := List.take_append_of_le_length h.ahead_le
  have hbefore : ∀ u, (update s.writer t .idle u).Writing → (s.writer u).Writing :=
    fun u => of_update (P := WriterPc.Writing) id
  refine
    { writeIndex := ?_
      readIndex := h.readIndex
      indices := ?_
      low := by rw [hlength]; exact h.low.trans (Nat.le_succ _)
      high := by rw [hlength]; exact hroom
      slots := fun i entry hlow hi => ?_
      writers := ?_
      alone := fun u v hu hv => h.alone u v (hbefore u hu) (hbefore v hv)
      reader := ?_
      exited := fun hexit => absurd hexit (h.not_exited hwriting)
      aggregated := h.aggregated.trans (congrArg (List.map fun entry => some entry.2) htake.symm)
      stats := h.stats.trans (congrArg (List.foldl _ _) htake.symm)
      returned := ?_
      dropped := h.dropped }
  · rw [hlength]
    exact Nat.mod_add_mod s.stored.length (2 ^ 64) 1
  · rw [hlength, List.range_succ, List.map_append, List.map_append, h.indices]
    rfl
  · rcases Ring.getElem?_concat_cases hi with hi | ⟨rfl, rfl⟩
    · exact h.slots i entry hlow hi
    · rw [wrap64_mod] at hslot
      exact hslot
  · rw [hlength]
    refine forall_update h.writers (fun u hut hok => ?_) trivial
    exact hok.of_not_writing (h.other_idle hwriting hut) (Or.inr (Nat.lt_succ_self _))
  · rw [hlength]
    exact h.reader.of_lt
  · rw [List.map_append, List.append_assoc]
    exact (List.perm_append_comm.append_left _).trans
      ((List.append_assoc ..).symm ▸ h.returned.append_right [record])

/-- The thread drops its event. -/
theorem IntactAt.drop (h : IntactAt R s) (record : Record) :
    IntactAt R { s.goto t .idle with
      droppedEvents := wrap64 (s.droppedEvents + 1)
      dropped := s.dropped ++ [record]
      returned := s.returned ++ [record] } := by
  have hgoto : IntactAt R (s.goto t .idle) := h.goto trivial id
  exact
    { hgoto with
      returned := by
        rw [← List.append_assoc]
        exact h.returned.append_right [record]
      dropped := by
        rw [h.dropped, List.length_append]
        exact Nat.mod_add_mod s.dropped.length (2 ^ 64) 1 }

/-! ## The steps of the reader -/

omit [DecidableEq Thread] in
/-- The reader moves on. -/
theorem IntactAt.setReader (h : IntactAt R s) {pc : ReaderPc} (hpc : ReaderOk s.slots R s.stored.length pc)
    (hahead : pc.ahead = s.reader.ahead)
    (hexit : pc = .exited → R = s.stored.length ∧ ∀ u, ¬ (s.writer u).Writing) :
    IntactAt R { s with reader := pc } :=
  { h with
    reader := hpc
    exited := hexit
    aggregated := by rw [hahead]; exact h.aggregated
    stats := by rw [hahead]; exact h.stats }

/-- What the reader has counted and aggregated, after the next event. -/
theorem take_succ_of_getElem? {α : Type} {entries : List α} {i : ℕ} {entry : α} (h : entries[i]? = some entry) :
    entries.take (i + 1) = entries.take i ++ [entry] := by
  rw [List.take_add_one, h]
  rfl

omit [DecidableEq Thread] in
/-- The slot of the next event holds it. -/
theorem IntactAt.exists_next (h : IntactAt R s) (hlt : R < s.stored.length) :
    ∃ entry, s.stored[R]? = some entry ∧ s.slots (wrap64 R % telemetryRingSize) = some entry.2 := by
  have hentry := List.getElem?_eq_getElem hlt
  refine ⟨_, hentry, ?_⟩
  rw [wrap64_mod]
  exact h.slots R _ (Nat.le_refl R) hentry

omit [DecidableEq Thread] in
/-- The reader aggregates the next event. -/
theorem IntactAt.aggregateNext (h : IntactAt R s) (hlt : R < s.stored.length) (hahead : s.reader.ahead = 0) :
    IntactAt R { s.aggregateSeen (s.slots (wrap64 R % telemetryRingSize)) with reader := .store (wrap64 R) } := by
  obtain ⟨entry, hentry, hslot⟩ := h.exists_next hlt
  have htake := take_succ_of_getElem? hentry
  have haggregated := h.aggregated
  have hstats := h.stats
  rw [hahead] at haggregated hstats
  rw [hslot]
  exact
    { h with
      reader := ⟨rfl, hlt⟩
      exited := fun hexit => by cases hexit
      aggregated := by
        show s.aggregated ++ [some entry.2] = (s.stored.take (R + 1)).map _
        rw [htake, List.map_append, haggregated]
        rfl
      stats := by
        show aggregate s.stats entry.2.event = (s.stored.take (R + 1)).foldl _ _
        rw [htake, List.foldl_append, hstats]
        rfl }

omit [DecidableEq Thread] in
/-- The reader counts the event as read. -/
theorem IntactAt.advance (h : IntactAt R s) {readIdx : ℕ} (hpc : s.reader = .store readIdx) :
    IntactAt (R + 1) { s with readIndex := wrap64 (readIdx + 1), reader := .loop } := by
  have hreader := h.reader
  have haggregated := h.aggregated
  have hstats := h.stats
  rw [hpc] at hreader haggregated hstats
  obtain ⟨rfl, hlt⟩ := hreader
  exact
    { h with
      readIndex := Nat.mod_add_mod R (2 ^ 64) 1
      low := hlt
      high := h.high.trans (Nat.add_le_add_right (Nat.le_succ R) _)
      slots := fun i entry hlow hi => h.slots i entry (Nat.le_of_succ_le hlow) hi
      writers := fun u => (h.writers u).of_le
      reader := trivial
      exited := fun hexit => by cases hexit
      aggregated := haggregated
      stats := hstats }

/-! ## Every step -/

variable {s' : State Thread}

theorem write_intact (h : IntactAt R s) (horderly : Orderly s (.next t))
    (hstep : s.write t (s.writer t) = some s') : IntactAt R s' := by
  have hok := h.writers t
  cases hpc : s.writer t with
  | idle =>
      rw [hpc] at hstep
      cases hstep
  | loadWrite record =>
      rw [hpc] at hstep
      obtain rfl := Option.some.inj hstep
      exact h.goto ⟨h.writeIndex, Nat.le_refl _⟩ id
  | loadRead record writeIdx stores =>
      rw [hpc] at hstep hok
      simp only [State.write] at hstep
      split at hstep
      · obtain rfl := Option.some.inj hstep
        exact h.goto trivial id
      · rename_i hroom
        obtain rfl := Option.some.inj hstep
        obtain ⟨rfl, hle⟩ := hok
        refine h.goto ⟨rfl, hle, fun heq => ?_⟩ id
        rw [h.readIndex, heq] at hroom
        exact lt_of_sub64_lt h.low h.high (Nat.lt_of_not_le hroom)
  | copy record writeIdx stores =>
      rw [hpc] at hstep hok
      obtain rfl := Option.some.inj hstep
      obtain ⟨hlength, hidle, hruns⟩ := horderly record writeIdx stores hpc
      obtain ⟨rfl, -, hroom⟩ := hok
      -- the room that the thread has found is still there: nothing was stored since
      obtain rfl := hlength
      exact h.write (fun u _ => hidle u) (hroom rfl) hruns ⟨rfl, hroom rfl⟩
  | finishCopy record writeIdx =>
      have hwriting : (s.writer t).Writing := by rw [hpc]; trivial
      rw [hpc] at hstep hok
      obtain rfl := Option.some.inj hstep
      obtain ⟨rfl, hroom⟩ := hok
      exact h.write (fun u => h.other_idle hwriting) hroom (h.not_exited hwriting) ⟨rfl, hroom, update_self ..⟩
  | store record writeIdx =>
      rw [hpc] at hstep
      obtain rfl := Option.some.inj hstep
      exact h.publish hpc
  | drop record =>
      rw [hpc] at hstep
      obtain rfl := Option.some.inj hstep
      exact h.drop record

omit [DecidableEq Thread] in
/-- When the indices are equal, everything has been read. -/
theorem IntactAt.of_drained (h : IntactAt R s) (hdrained : Drained s) :
    R = s.stored.length ∧ ∀ u, ¬ (s.writer u).Writing := by
  obtain ⟨heq, hidle⟩ := hdrained
  rw [h.readIndex, h.writeIndex] at heq
  exact ⟨(wrap64_eq_iff h.low h.high).mp heq, hidle⟩

omit [DecidableEq Thread] in
theorem read_intact (h : IntactAt R s) (horderly : Orderly s .read) (hstep : s.read s.reader = some s') :
    Intact s' := by
  have hreader := h.reader
  cases hpc : s.reader with
  | loop =>
      rw [hpc] at hstep
      simp only [State.read] at hstep
      split at hstep
      · rename_i hrequested
        obtain rfl := Option.some.inj hstep
        exact ⟨R, h.setReader trivial (by rw [hpc]; rfl) fun _ => h.of_drained (horderly hpc hrequested)⟩
      · obtain rfl := Option.some.inj hstep
        exact ⟨R, h.setReader trivial (by rw [hpc]; rfl) fun hexit => by cases hexit⟩
  | loadRead =>
      rw [hpc] at hstep
      obtain rfl := Option.some.inj hstep
      exact ⟨R, h.setReader h.readIndex (by rw [hpc]; rfl) fun hexit => by cases hexit⟩
  | loadWrite readIdx =>
      rw [hpc] at hstep hreader
      obtain rfl : readIdx = wrap64 R := hreader
      simp only [State.read] at hstep
      split at hstep
      · obtain rfl := Option.some.inj hstep
        exact ⟨R, h.setReader trivial (by rw [hpc]; rfl) fun hexit => by cases hexit⟩
      · rename_i hne
        obtain rfl := Option.some.inj hstep
        -- something was stored that was not read, as the indices differ
        have hlt : R < s.stored.length :=
          Nat.lt_of_le_of_ne h.low fun heq => hne (by rw [h.writeIndex, heq])
        exact ⟨R, h.setReader ⟨rfl, hlt⟩ (by rw [hpc]; rfl) fun hexit => by cases hexit⟩
  | readType readIdx =>
      rw [hpc] at hstep hreader
      obtain rfl := Option.some.inj hstep
      exact ⟨R, h.setReader ⟨hreader.1, hreader.2, rfl⟩ (by rw [hpc]; rfl) fun hexit => by cases hexit⟩
  | readData readIdx seen =>
      rw [hpc] at hstep hreader
      obtain ⟨rfl, hlt, rfl⟩ := hreader
      simp only [State.read, if_true] at hstep
      obtain rfl := Option.some.inj hstep
      exact ⟨R, h.aggregateNext hlt (by rw [hpc]; rfl)⟩
  | store readIdx =>
      rw [hpc] at hstep
      obtain rfl := Option.some.inj hstep
      exact ⟨R + 1, h.advance hpc⟩
  | exited =>
      rw [hpc] at hstep
      cases hstep

theorem step_intact {a : Action Thread} (h : Intact s) (horderly : Orderly s a) (hstep : step s a = some s') :
    Intact s' := by
  obtain ⟨R, h⟩ := h
  cases a with
  | call t event =>
      simp only [step] at hstep
      split at hstep
      · split at hstep
        · obtain rfl := Option.some.inj hstep
          have hgoto : IntactAt R (s.goto t (.loadWrite ⟨s.calls, event⟩)) := h.goto trivial id
          exact ⟨R, { hgoto with }⟩
        · obtain rfl := Option.some.inj hstep
          exact ⟨R, h⟩
      · cases hstep
  | next t => exact ⟨R, write_intact h horderly hstep⟩
  | read => exact read_intact h horderly hstep
  | requestShutdown =>
      obtain ⟨-, hstep⟩ := Option.ite_none_right_eq_some.mp hstep
      obtain rfl := Option.some.inj hstep
      exact ⟨R, { h with }⟩
  | kill =>
      simp only [step] at hstep
      split at hstep
      · cases hstep
      · obtain ⟨-, hstep⟩ := Option.ite_none_right_eq_some.mp hstep
        obtain rfl := Option.some.inj hstep
        have hdrained := h.of_drained horderly
        have hahead : s.reader.ahead = 0 := by
          have hle := h.ahead_le
          omega
        exact ⟨R, h.setReader trivial hahead.symm fun _ => hdrained⟩
  | reap =>
      simp only [step] at hstep
      split at hstep
      · obtain ⟨-, hstep⟩ := Option.ite_none_right_eq_some.mp hstep
        obtain rfl := Option.some.inj hstep
        exact ⟨R, { h with }⟩
      · cases hstep

end

/-! ## Every run -/

omit [DecidableEq Thread] in
/-- When the reader has exited, every event is accounted for. -/
theorem IntactAt.allAccounted {R : ℕ} {s : State Thread} (h : IntactAt R s) (hexit : s.reader = .exited) :
    AllAccounted s := by
  obtain ⟨rfl, -⟩ := h.exited hexit
  have haggregated := h.aggregated
  have hstats := h.stats
  have htake : s.stored.take (s.stored.length + ReaderPc.exited.ahead) = s.stored := List.take_length
  rw [hexit, htake] at haggregated hstats
  exact ⟨haggregated, h.indices, hstats, h.returned, h.dropped⟩

/-- When the reader has exited, every call that has returned was aggregated or dropped, if one thread at a time
writes an event and the reader stops when there is nothing left to read. -/
theorem allAccounted_of_exited {s : State Thread} (h : Interleaving.Reachable Initial step Orderly s)
    (hexit : s.reader = .exited) : AllAccounted s := by
  obtain ⟨R, hintact⟩ := h.invariant (fun _ => Initial.intact) fun _ _ _ => step_intact
  exact hintact.allAccounted hexit

/-! ## Runs of one thread -/

/-- The thread is not writing. -/
def quiet : WriterPc → Bool
  | .finishCopy _ _ | .store _ _ => false
  | _ => true

theorem not_writing_of_quiet {pc : WriterPc} (h : quiet pc = true) : ¬ pc.Writing := by
  cases pc with
  | finishCopy record writeIdx => cases h
  | store record writeIdx => cases h
  | _ => exact id

/-- The reader has not exited. -/
def reads : ReaderPc → Bool
  | .exited => false
  | _ => true

/-- A check of `Orderly`, for a run that nobody kills. -/
def orderlyCheck (s : State Unit) : Action Unit → Bool
  | .next t =>
      match s.writer t with
      | .copy _ _ stores => s.stored.length == stores && reads s.reader
      | _ => true
  | .read => !s.shutdownRequested || (s.readIndex == s.writeIndex && quiet (s.writer ()))
  | .kill => false
  | _ => true

theorem orderly_of_check {s : State Unit} {a : Action Unit} (hcheck : orderlyCheck s a = true) : Orderly s a := by
  cases a with
  | next t =>
      intro record writeIdx stores hpc
      simp only [orderlyCheck, hpc, Bool.and_eq_true, beq_iff_eq] at hcheck
      refine ⟨hcheck.1, fun u hu => ?_, fun hexit => ?_⟩
      · rw [show u = t from rfl, hpc] at hu
        exact hu
      · rw [hexit] at hcheck
        cases hcheck.2
  | read =>
      intro _ hrequested
      simp only [orderlyCheck, hrequested, Bool.not_true, Bool.false_or, Bool.and_eq_true, beq_iff_eq] at hcheck
      exact ⟨hcheck.1, fun _ => not_writing_of_quiet hcheck.2⟩
  | kill => cases hcheck
  | _ => trivial

/-- An event is stored and read, and the reader exits afterwards. -/
theorem allAccounted_of_exited_oneEvent :
    ∃ s : State Unit, s.aggregated.length = 1 ∧ AllAccounted s := by
  have hinit : Interleaving.Reachable Initial step Orderly (telemetryProcessInit : State Unit) := .init rfl
  have hresult :
      (Interleaving.run (Interleaving.guarded step orderlyCheck)
        [Action.call () ⟨7, .memory 64⟩, Action.next (), Action.next (), Action.next (), Action.next (),
          Action.next (), Action.read, Action.read, Action.read, Action.read, Action.read, Action.read,
          Action.requestShutdown, Action.read, Action.reap] telemetryProcessInit).map
        (fun s => (s.reader, s.aggregated.length)) = some (.exited, 1) := rfl
  obtain ⟨s, hreach, hs⟩ := hinit.exists_of_run_guarded (fun _ _ _ => orderly_of_check) hresult
  exact ⟨s, congrArg Prod.snd hs, allAccounted_of_exited hreach (congrArg Prod.fst hs)⟩

/-- An event that was stored is lost when the shutdown is requested before the reader has seen it. -/
theorem not_allAccounted_of_exited :
    ¬ ∀ s : State Unit, Interleaving.Reachable Initial step (fun _ _ => True) s → s.reader = .exited →
      AllAccounted s := by
  intro hall
  have hinit : Interleaving.Reachable Initial step (fun _ _ => True) (telemetryProcessInit : State Unit) :=
    .init rfl
  have hresult :
      (Interleaving.run step
        [Action.call () ⟨7, .memory 64⟩, Action.next (), Action.next (), Action.next (), Action.next (),
          Action.next (), Action.requestShutdown, Action.read] telemetryProcessInit).map
        (fun s => (s.reader, s.stored.length, s.aggregated.length)) = some (.exited, 1, 0) := rfl
  obtain ⟨s, hrun, hs⟩ := Option.map_eq_some_iff.mp hresult
  have haccounted := hall s (hinit.run (fun _ _ => trivial) hrun) (congrArg Prod.fst hs)
  have hlength := congrArg List.length haccounted.aggregated
  rw [List.length_map] at hlength
  have hstored : s.stored.length = 1 := congrArg (fun p => p.2.1) hs
  have hread : s.aggregated.length = 0 := congrArg (fun p => p.2.2) hs
  omega

end LgxRuntime.Telemetry.Process
