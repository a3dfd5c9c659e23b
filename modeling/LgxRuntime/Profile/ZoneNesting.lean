import LgxRuntime.Profile.Profiler
import Mathlib.Data.List.Induction

/-!
# The nesting of zones

The calls of a program are well nested: an end belongs to the last begin that has not been ended.  A begin
that is refused is not on the stack of the profiler, but its end arrives all the same, and closes whatever
zone is on top.  The zones are closed by their own ends exactly if no such end arrives while a zone is open.
-/

namespace LgxRuntime.Profile

/-- A call within a frame, with the time at which it is made. -/
inductive ZoneCall
  | zoneBegin (name : Option CString) (now : UInt64)
  | zoneEnd (now : UInt64)

/-- A begin of the program that has not been ended: it was accepted and got a zone, or it was refused, with
some zones open. -/
inductive Opened
  | accepted (idx : ℕ)
  | refused (depth : ℕ)
  deriving DecidableEq

/-- The profiler, and the begins that have not been ended, the last one first. -/
structure Trace where
  ctx : ProfContext
  opened : List Opened

/-- What has been opened by a begin that leaves the profiler like this. -/
def openedBy (ctx ctx' : ProfContext) : Opened :=
  if ctx.zones.length < ctx'.zones.length then .accepted ctx.zones.length else .refused ctx.zoneStack.length

/-- One call.  An end without a begin is not well nested. -/
def Trace.step (t : Trace) : ZoneCall → Option Trace
  | .zoneBegin name now =>
      let ctx := (t.ctx.zoneBegin name now).2
      some ⟨ctx, openedBy t.ctx ctx :: t.opened⟩
  | .zoneEnd now =>
      match t.opened with
      | [] => none
      | _ :: opened => some ⟨(t.ctx.zoneEnd now).2, opened⟩

/-- The trace of some calls, if they are well nested. -/
def trace (ctx : ProfContext) (calls : List ZoneCall) : Option Trace :=
  calls.foldlM Trace.step ⟨ctx, []⟩

/-- A frame has just begun. -/
def FrameBegun (ctx : ProfContext) : Prop :=
  ctx.zones = [] ∧ ctx.zoneStack = []

/-- A zone is closed exactly if its begin has been ended. -/
def Trace.Nested (t : Trace) : Prop :=
  ∀ i z, t.ctx.zones[i]? = some z → (z.closed = true ↔ .accepted i ∉ t.opened)

/-- The next end belongs to a begin that was refused while a zone was open. -/
def Trace.EndsRefused (t : Trace) : Prop :=
  ∃ depth rest, t.opened = .refused (depth + 1) :: rest

/-! ## The stack -/

/-- The zones that are open in the program, the last one first. -/
def acceptedOf (opened : List Opened) : List ℕ :=
  opened.filterMap fun o =>
    match o with
    | .accepted idx => some idx
    | .refused _ => none

@[simp] theorem acceptedOf_accepted (idx : ℕ) (opened : List Opened) :
    acceptedOf (.accepted idx :: opened) = idx :: acceptedOf opened := rfl

@[simp] theorem acceptedOf_refused (depth : ℕ) (opened : List Opened) :
    acceptedOf (.refused depth :: opened) = acceptedOf opened := rfl

theorem mem_acceptedOf {idx : ℕ} {opened : List Opened} : idx ∈ acceptedOf opened ↔ .accepted idx ∈ opened := by
  induction opened with
  | nil => simp [acceptedOf]
  | cons o opened ih => cases o <;> simp [ih]

/-- A refused begin remembers how many zones were open. -/
def DepthsRecorded : List Opened → Prop
  | [] => True
  | .accepted _ :: opened => DepthsRecorded opened
  | .refused depth :: opened => depth = (acceptedOf opened).length ∧ DepthsRecorded opened

/-- The stack holds the zones that are open in the program, each of them once, and the zones are closed
accordingly. -/
structure Trace.Paired (t : Trace) : Prop where
  stack : t.ctx.zoneStack = acceptedOf t.opened
  nodup : t.ctx.zoneStack.Nodup
  lt : ∀ i ∈ t.ctx.zoneStack, i < t.ctx.zones.length
  enabled : t.ctx.zoneStack ≠ [] → t.ctx.enabled = true
  depths : DepthsRecorded t.opened
  nested : t.Nested

theorem frameBegun_profCreate (config : Option ProfConfig) : FrameBegun (profCreate config) :=
  ⟨rfl, rfl⟩

theorem frameBegun_frameBegin {ctx : ProfContext} (henabled : ctx.enabled = true) (now : UInt64) :
    FrameBegun (ctx.frameBegin now).2 := by
  simp [ProfContext.frameBegin, henabled, FrameBegun]

theorem paired_of_frameBegun {ctx : ProfContext} (h : FrameBegun ctx) : Trace.Paired ⟨ctx, []⟩ where
  stack := h.2
  nodup := by simp [h.2]
  lt := by simp [h.2]
  enabled := fun hne => absurd h.2 hne
  depths := trivial
  nested := by simp [Trace.Nested, h.1]

variable {t t' : Trace} {name : Option CString} {now : UInt64} {o : Opened} {opened : List Opened}
  {ctx : ProfContext} {idx : ℕ} {stack : List ℕ} {calls : List ZoneCall}

/-- A begin either leaves the profiler alone, or adds an open zone. -/
theorem zoneBegin_cases (ctx : ProfContext) (name : Option CString) (now : UInt64) :
    (ctx.zoneBegin name now).2 = ctx ∨
      ctx.enabled = true ∧ ∃ z : ZoneEntry, z.closed = false ∧ (ctx.zoneBegin name now).2 =
        { ctx with zones := ctx.zones ++ [z], zoneStack := ctx.zones.length :: ctx.zoneStack } := by
  unfold ProfContext.zoneBegin
  split
  · exact Or.inl rfl
  · split_ifs with henabled
    · exact Or.inl rfl
    · exact Or.inl rfl
    · exact Or.inl rfl
    · exact Or.inr ⟨by simpa using henabled, _, rfl, rfl⟩

theorem zoneEnd_cons (henabled : ctx.enabled = true) (hstack : ctx.zoneStack = idx :: stack) :
    (ctx.zoneEnd now).2 =
      { ctx with
        zones := ctx.zones.modify idx fun z => z.close now
        zoneStack := stack } := by
  simp only [ProfContext.zoneEnd, henabled, hstack, Bool.not_true, Bool.false_eq_true, if_false]

/-- An end that finds no zone open changes nothing. -/
theorem zoneEnd_nil (hstack : ctx.zoneStack = []) : (ctx.zoneEnd now).2 = ctx := by
  unfold ProfContext.zoneEnd
  split_ifs
  · rfl
  · rw [hstack]

/-- A begin, accepted or refused, keeps the zones paired. -/
theorem Trace.Paired.zoneBegin (h : t.Paired) (hstep : t.step (.zoneBegin name now) = some t') : t'.Paired := by
  obtain rfl := Option.some.inj hstep
  obtain hsame | ⟨henabled, z, hopen, hadded⟩ := zoneBegin_cases t.ctx name now
  · simp only [hsame, openedBy, lt_irrefl, if_false]
    exact
      { stack := h.stack
        nodup := h.nodup
        lt := h.lt
        enabled := h.enabled
        depths := ⟨by rw [h.stack], h.depths⟩
        nested := fun i z hz => by simpa using h.nested i z hz }
  · have hlt : t.ctx.zones.length < (t.ctx.zones ++ [z]).length := by simp
    simp only [hadded, openedBy, if_pos hlt]
    have hnew : t.ctx.zones.length ∉ t.ctx.zoneStack := fun hmem => lt_irrefl _ (h.lt _ hmem)
    refine
      { stack := by simp [h.stack]
        nodup := List.nodup_cons.mpr ⟨hnew, h.nodup⟩
        lt := ?_
        enabled := fun _ => henabled
        depths := h.depths
        nested := ?_ }
    · intro i hi
      obtain rfl | hi := List.mem_cons.mp hi
      · exact hlt
      · exact lt_trans (h.lt i hi) hlt
    · intro i z' hz'
      obtain hi | rfl | hi := lt_trichotomy i t.ctx.zones.length
      · rw [List.getElem?_append_left hi] at hz'
        simp [h.nested i z' hz', hi.ne]
      · obtain rfl : z = z' := by simpa using hz'
        simp [hopen]
      · rw [List.getElem?_eq_none (by simpa using Nat.succ_le_of_lt hi)] at hz'
        cases hz'

/-- The end of an accepted begin closes the zone of this begin. -/
theorem Trace.Paired.end_accepted (h : t.Paired) (hopened : t.opened = .accepted idx :: opened)
    (hstep : t.step (.zoneEnd now) = some t') : t'.Paired := by
  have hstack : t.ctx.zoneStack = idx :: acceptedOf opened := by rw [h.stack, hopened, acceptedOf_accepted]
  have hnodup := h.nodup
  have hlt := h.lt
  have hdepths := h.depths
  rw [hstack] at hnodup hlt
  rw [hopened] at hdepths
  have henabled : t.ctx.enabled = true := h.enabled (by rw [hstack]; exact List.cons_ne_nil _ _)
  simp only [Trace.step, hopened, zoneEnd_cons henabled hstack] at hstep
  obtain rfl := Option.some.inj hstep
  refine
    { stack := rfl
      nodup := hnodup.of_cons
      lt := fun i hi => by simpa using hlt i (List.mem_cons_of_mem _ hi)
      enabled := fun _ => henabled
      depths := hdepths
      nested := ?_ }
  intro i z' hz'
  obtain ⟨z, hz, rfl⟩ := by simpa [List.getElem?_modify] using hz'
  by_cases hi : idx = i
  · subst hi
    have hnot : .accepted idx ∉ opened := fun hmem =>
      (List.nodup_cons.mp hnodup).1 (mem_acceptedOf.mpr hmem)
    simp [ZoneEntry.close, hnot]
  · have hnested := h.nested i z hz
    rw [hopened] at hnested
    simpa [hi, Ne.symm hi] using hnested

/-- The end of a begin that was refused while no zone was open changes nothing. -/
theorem Trace.Paired.end_refused (h : t.Paired) (hopened : t.opened = .refused 0 :: opened)
    (hstep : t.step (.zoneEnd now) = some t') : t'.Paired := by
  have hdepths := h.depths
  have hnested := h.nested
  have hstack := h.stack
  rw [hopened] at hdepths hstack
  rw [Trace.Nested, hopened] at hnested
  have hnil : t.ctx.zoneStack = [] := hstack.trans (List.eq_nil_of_length_eq_zero hdepths.1.symm)
  simp only [Trace.step, hopened, zoneEnd_nil hnil] at hstep
  obtain rfl := Option.some.inj hstep
  exact
    { stack := hstack
      nodup := h.nodup
      lt := h.lt
      enabled := h.enabled
      depths := hdepths.2
      nested := fun i z hz => by simpa using hnested i z hz }

/-- The end of a begin that was refused while a zone was open closes this zone. -/
theorem Trace.Paired.not_nested (h : t.Paired) (hends : t.EndsRefused)
    (hstep : t.step (.zoneEnd now) = some t') : ¬ t'.Nested := by
  obtain ⟨depth, opened, hopened⟩ := hends
  have hdepths := h.depths
  have hstack := h.stack
  rw [hopened] at hdepths hstack
  obtain ⟨idx, rest, hcons⟩ := List.exists_cons_of_length_eq_add_one hdepths.1.symm
  rw [acceptedOf_refused, hcons] at hstack
  have henabled : t.ctx.enabled = true := h.enabled (by rw [hstack]; exact List.cons_ne_nil _ _)
  have hlt : idx < t.ctx.zones.length := h.lt idx (by rw [hstack]; exact List.mem_cons_self)
  have hopen : .accepted idx ∈ opened := mem_acceptedOf.mp (by rw [hcons]; exact List.mem_cons_self)
  simp only [Trace.step, hopened, zoneEnd_cons henabled hstack] at hstep
  obtain rfl := Option.some.inj hstep
  intro hnested
  have hclosed : (t.ctx.zones.modify idx fun z => z.close now)[idx]? = some (t.ctx.zones[idx].close now) := by
    rw [List.getElem?_modify_eq, List.getElem?_eq_getElem hlt]
    rfl
  exact (hnested idx _ hclosed).mp rfl hopen

/-! ## Frames -/

/-- The trace of some calls and one more. -/
theorem trace_concat {call : ZoneCall} (h : trace ctx (calls ++ [call]) = some t') :
    ∃ t, trace ctx calls = some t ∧ t.step call = some t' := by
  rw [trace, List.foldlM_append, Option.bind_eq_bind, Option.bind_eq_some_iff] at h
  obtain ⟨t, ht, hstep⟩ := h
  exact ⟨t, ht, by simpa using hstep⟩

/-- If no end closes the zone of another begin, the zones are paired after every call. -/
theorem paired_trace (hbegun : FrameBegun ctx)
    (hends : ∀ before now, before ++ [.zoneEnd now] <+: calls →
      ∀ t, trace ctx before = some t → ¬ t.EndsRefused)
    (htrace : trace ctx calls = some t) : t.Paired := by
  induction calls using List.reverseRecOn generalizing t with
  | nil =>
      obtain rfl := Option.some.inj htrace
      exact paired_of_frameBegun hbegun
  | append_singleton calls call ih =>
      obtain ⟨t₀, ht₀, hstep⟩ := trace_concat htrace
      have hpaired : t₀.Paired :=
        ih (fun before now hfront => hends before now (hfront.trans (List.prefix_append _ _))) ht₀
      cases call with
      | zoneBegin name now => exact hpaired.zoneBegin hstep
      | zoneEnd now =>
          have hnot := hends calls now List.prefix_rfl t₀ ht₀
          cases hopened : t₀.opened with
          | nil => simp [Trace.step, hopened] at hstep
          | cons o opened =>
              cases o with
              | accepted idx => exact hpaired.end_accepted hopened hstep
              | refused depth =>
                  cases depth with
                  | zero => exact hpaired.end_refused hopened hstep
                  | succ depth => exact absurd ⟨depth, opened, hopened⟩ hnot

/-- If the zones are closed by their own ends, no end closes the zone of another begin. -/
theorem not_endsRefused (hbegun : FrameBegun ctx)
    (hnested : ∀ before, before <+: calls → ∀ t, trace ctx before = some t → t.Nested) :
    ∀ before now, before ++ [.zoneEnd now] <+: calls → ∀ t, trace ctx before = some t → ¬ t.EndsRefused := by
  induction calls using List.reverseRecOn with
  | nil => exact fun before now hfront => by simp at hfront
  | append_singleton calls call ih =>
      have hbefore := ih fun before hfront => hnested before (hfront.trans (List.prefix_append _ _))
      intro before now hfront t ht hends
      obtain heq | hfront := List.prefix_concat_iff.mp hfront
      · obtain ⟨rfl, rfl⟩ := List.append_singleton_inj.mp heq
        have hpaired := paired_trace hbegun hbefore ht
        obtain ⟨depth, opened, hopened⟩ := hends
        have hstep : t.step (.zoneEnd now) = some ⟨(t.ctx.zoneEnd now).2, opened⟩ := by
          rw [Trace.step, hopened]
        have htrace : trace ctx (before ++ [.zoneEnd now]) = some ⟨(t.ctx.zoneEnd now).2, opened⟩ := by
          rw [trace, List.foldlM_append, ← trace, ht]
          simpa using hstep
        exact hpaired.not_nested ⟨depth, opened, hopened⟩ hstep (hnested _ List.prefix_rfl _ htrace)
      · exact hbefore before now hfront t ht hends

/-- In a frame, every zone is closed by the end of its own begin, and not before, exactly if no end arrives of a
begin that was refused while a zone was open. -/
theorem nested_iff (hbegun : FrameBegun ctx) (calls : List ZoneCall) :
    (∀ before, before <+: calls → ∀ t, trace ctx before = some t → t.Nested) ↔
      ∀ before now, before ++ [.zoneEnd now] <+: calls →
        ∀ t, trace ctx before = some t → ¬ t.EndsRefused := by
  refine ⟨not_endsRefused hbegun, fun hends before hfront t ht => ?_⟩
  have hpaired : t.Paired :=
    paired_trace hbegun (fun before' now hfront' => hends before' now (hfront'.trans hfront)) ht
  exact hpaired.nested

/-- A profiler with room for one zone. -/
def oneZone : ProfContext :=
  profCreate (some ⟨true, 1, 1, 1⟩)

/-- The zone `a`. -/
def outer : ZoneCall :=
  .zoneBegin (some (.replicate 1 97 CString.beq_zero_a)) 0

/-- The zone `b`, inside `a`, is begun and ended. -/
def inner : List ZoneCall :=
  [outer, .zoneBegin (some (.replicate 1 98 CString.beq_zero_b)) 1, .zoneEnd 2]

theorem nested_outer :
    FrameBegun oneZone ∧
      ∀ before, before <+: [outer] ++ [.zoneEnd 1] → ∀ t, trace oneZone before = some t → t.Nested := by
  refine ⟨frameBegun_profCreate _, (nested_iff (frameBegun_profCreate _) _).mpr fun before now hfront t ht hends => ?_⟩
  have hbefore : before = [outer] := by
    obtain heq | hfront := List.prefix_concat_iff.mp hfront
    · exact (List.append_singleton_inj.mp heq).1
    · have hlast : before ++ [.zoneEnd now] = [] ++ [outer] := hfront.eq_of_length_le (by simp)
      exact absurd (List.append_singleton_inj.mp hlast).2 (by simp [outer])
  have hopened : (trace oneZone [outer]).map Trace.opened = some [.accepted 0] := by
    decide
  rw [← hbefore, oneZone, ht] at hopened
  obtain ⟨depth, rest, hrefused⟩ := hends
  simp [hrefused] at hopened

/-- There is no room for `b`, and its end closes `a`. -/
theorem not_nested_inner :
    ¬ ∀ (ctx : ProfContext) (calls : List ZoneCall), FrameBegun ctx →
      ∀ before, before <+: calls → ∀ t, trace ctx before = some t → t.Nested := by
  intro h
  have hresult : (trace oneZone inner).map (fun t => (t.opened, t.ctx.zones.map ZoneEntry.closed)) =
      some ([.accepted 0], [true]) := by
    decide
  obtain ⟨t, ht, hresult⟩ := Option.map_eq_some_iff.mp hresult
  obtain ⟨hopened, hclosed⟩ := Prod.mk.inj hresult
  obtain ⟨z, hzones, hz⟩ := List.map_eq_singleton_iff.mp hclosed
  have hnested := h oneZone inner (frameBegun_profCreate _) inner List.prefix_rfl t ht 0 z (by simp [hzones])
  exact hnested.mp hz (by rw [hopened]; exact List.mem_singleton_self _)

end LgxRuntime.Profile
