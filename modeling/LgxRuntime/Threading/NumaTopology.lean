import LgxRuntime.Lib.Scanf
import Mathlib.Data.Finset.Card
import Mathlib.Data.List.Flatten
import Mathlib.Data.List.Range

/-!
# The nodes of the machine

`lgx_threading_detect_numa` reads which cores belong to which node from the lists that the kernel writes, such as
`0-3,8-11`.  What it makes of them is the machine again, as far as there is room: eight nodes, 256 cores, and lists of
at most 511 characters.
-/

namespace LgxRuntime.Threading

open Function (update update_idem update_of_ne update_self)

/-- `LGX_THREADING_MAX_NUMA_NODES`. -/
def maxNumaNodes : ℕ := 8

/-- `LGX_THREADING_MAX_CORES`. -/
def maxCores : ℕ := 256

/-- `lgx_numa_topology_t`; of each array, the first elements are those of the source. -/
structure NumaTopology where
  nodeCount : UInt32
  totalCores : UInt32
  coresPerNode : ℕ → UInt32
  coreToNode : ℕ → UInt32

namespace NumaTopology

/-- A core is found in the list of a node. -/
def claim (node : ℕ) (topo : NumaTopology) (core : ℕ) : NumaTopology :=
  { topo with
    coreToNode := update topo.coreToNode core (UInt32.ofNat node)
    coresPerNode := update topo.coresPerNode node (topo.coresPerNode node + 1) }

/-- The cores from `lo` to `hi` for which there is room. -/
def coresBetween (lo hi : ℕ) : List ℕ :=
  List.range' lo (min (hi + 1) maxCores - lo)

/-- A token of a list: `"%u-%u"`, or else `"%u"`. -/
def parseToken (node : ℕ) (topo : NumaTopology) (token : List Char) : NumaTopology :=
  match Scanf.scanUnsigned token with
  | none => topo
  | some (lo, rest) =>
      match rest with
      | '-' :: rest =>
          match Scanf.scanUnsigned rest with
          | none => if lo.toNat < maxCores then topo.claim node lo.toNat else topo
          | some (hi, _) => (coresBetween lo.toNat hi.toNat).foldl (claim node) topo
      | _ => if lo.toNat < maxCores then topo.claim node lo.toNat else topo

/-- The characters at which `strtok` cuts. -/
def isDelimiter (c : Char) : Bool :=
  c = ',' || c = '\n'

/-- The list of a node is read, if it can be opened. -/
def readNode (cpulist : Option (List Char)) (topo : NumaTopology) (node : ℕ) : NumaTopology :=
  match cpulist.bind (Scanf.fgets 512) with
  | none => topo
  | some line => (Scanf.tokens isDelimiter line).foldl (parseToken node) topo

/-- The nodes that are there, up to the first that is missing. -/
def countNodes (isThere : ℕ → Bool) : ℕ :=
  ((List.range maxNumaNodes).takeWhile isThere).length

/-- `lgx_threading_detect_numa`, with what `sysconf` answers, and for each node whether it is there and what is in its
list. -/
def detectNuma (onlineCores : ℤ) (isThere : ℕ → Bool) (cpulist : ℕ → Option (List Char)) : NumaTopology :=
  let totalCores := UInt32.ofNat (min (max onlineCores 1) maxCores).toNat
  let nodeCount := countNodes isThere
  if nodeCount = 0 then ⟨1, totalCores, update (fun _ => 0) 0 totalCores, fun _ => 0⟩
  else
    (List.range nodeCount).foldl (fun topo node => readNode (cpulist node) topo node)
      ⟨UInt32.ofNat nodeCount, totalCores, fun _ => 0, fun _ => 0⟩

end NumaTopology

/-! ## What the kernel writes -/

/-- Consecutive cores. -/
structure CoreRange where
  lo : ℕ
  hi : ℕ
  le : lo ≤ hi
  lt : hi < 2 ^ 32

/-- The cores of a range. -/
def CoreRange.cores (range : CoreRange) : List ℕ :=
  List.range' range.lo (range.hi + 1 - range.lo)

/-- A range as it is written. -/
def CoreRange.text (range : CoreRange) : List Char :=
  if range.lo = range.hi then Nat.toDigits 10 range.lo
  else Nat.toDigits 10 range.lo ++ '-' :: Nat.toDigits 10 range.hi

/-- The ranges of a node, without the end of the line. -/
def rangesText (ranges : List CoreRange) : List Char :=
  [','].intercalate (ranges.map CoreRange.text)

/-- The cores of a node. -/
def coresOf (ranges : List CoreRange) : List ℕ :=
  ranges.flatMap CoreRange.cores

/-- What is found on a machine with these nodes. -/
def detectMachine (onlineCores : ℤ) (machine : List (List CoreRange)) : NumaTopology :=
  NumaTopology.detectNuma onlineCores (· < machine.length) fun node =>
    machine[node]?.map fun ranges => rangesText ranges ++ ['\n']

/-! ## One list -/

variable {topo : NumaTopology} {node : ℕ} {cores : List ℕ} {ranges : List CoreRange}

open NumaTopology (claim coresBetween parseToken readNode)

/-- The cores of a node for which there is room. -/
def knownCores (ranges : List CoreRange) : List ℕ :=
  (coresOf ranges).filter (· < maxCores)

theorem filter_range' (lo n m : ℕ) : (List.range' lo n).filter (· < m) = List.range' lo (min (lo + n) m - lo) := by
  induction n generalizing lo with
  | zero =>
      have hzero : min (lo + 0) m - lo = 0 := by omega
      rw [hzero]
      rfl
  | succ n ih =>
      rw [List.range'_succ]
      by_cases hlt : lo < m
      · have hsucc : min (lo + (n + 1)) m - lo = min (lo + 1 + n) m - (lo + 1) + 1 := by omega
        rw [List.filter_cons_of_pos (by simpa using hlt), ih, hsucc, List.range'_succ]
      · have hzero : min (lo + (n + 1)) m - lo = 0 := by omega
        have hzero' : min (lo + 1 + n) m - (lo + 1) = 0 := by omega
        rw [List.filter_cons_of_neg (by simpa using hlt), ih, hzero, hzero']
        rfl

/-- What the loop goes through are the cores of the range for which there is room. -/
theorem coresBetween_eq (range : CoreRange) :
    coresBetween range.lo range.hi = range.cores.filter (· < maxCores) := by
  have hle := range.le
  have hend : range.lo + (range.hi + 1 - range.lo) = range.hi + 1 := by omega
  rw [CoreRange.cores, filter_range', hend]
  rfl

/-- A range that has been written is read again. -/
theorem parseToken_text (node : ℕ) (topo : NumaTopology) (range : CoreRange) :
    parseToken node topo range.text = (range.cores.filter (· < maxCores)).foldl (claim node) topo := by
  have hlo : range.lo < 2 ^ 32 := Nat.lt_of_le_of_lt range.le range.lt
  rw [← coresBetween_eq]
  unfold CoreRange.text
  by_cases heq : range.lo = range.hi
  · have hscan : Scanf.scanUnsigned (Nat.toDigits 10 range.lo ++ []) = some (UInt32.ofNat range.lo, []) :=
      Scanf.scanUnsigned_toDigits hlo (fun c hc => by cases hc)
    rw [List.append_nil] at hscan
    rw [if_pos heq, parseToken, hscan]
    dsimp only
    rw [UInt32.toNat_ofNat_of_lt' hlo, ← heq]
    by_cases hroom : range.lo < maxCores
    · have hone : min (range.lo + 1) maxCores - range.lo = 1 := by omega
      rw [if_pos hroom, coresBetween, hone]
      rfl
    · have hzero : min (range.lo + 1) maxCores - range.lo = 0 := by omega
      rw [if_neg hroom, coresBetween, hzero]
      rfl
  · have hfirst : Scanf.scanUnsigned (Nat.toDigits 10 range.lo ++ '-' :: Nat.toDigits 10 range.hi) =
        some (UInt32.ofNat range.lo, '-' :: Nat.toDigits 10 range.hi) := by
      apply Scanf.scanUnsigned_toDigits hlo
      intro c hc
      obtain rfl := Option.some.inj hc
      decide
    have hsecond : Scanf.scanUnsigned (Nat.toDigits 10 range.hi ++ []) = some (UInt32.ofNat range.hi, []) :=
      Scanf.scanUnsigned_toDigits range.lt (fun c hc => by cases hc)
    rw [List.append_nil] at hsecond
    rw [if_neg heq, parseToken]
    simp only [hfirst, hsecond, UInt32.toNat_ofNat_of_lt' hlo, UInt32.toNat_ofNat_of_lt' range.lt]

/-- No character of a range is a blank, a comma or an end. -/
theorem text_chars (range : CoreRange) : ∀ c ∈ range.text, c.isDigit = true ∨ c = '-' := by
  intro c hc
  unfold CoreRange.text at hc
  split_ifs at hc
  · exact .inl (Scanf.isDigit_toDigits _ c hc)
  · rcases List.mem_append.mp hc with hlo | hrest
    · exact .inl (Scanf.isDigit_toDigits _ c hlo)
    · rcases List.mem_cons.mp hrest with rfl | hhi
      · exact .inr rfl
      · exact .inl (Scanf.isDigit_toDigits _ c hhi)

theorem text_ne_nil (range : CoreRange) : range.text ≠ [] := by
  unfold CoreRange.text
  split_ifs
  · exact Nat.toDigits_ne_nil
  · exact List.append_ne_nil_of_left_ne_nil Nat.toDigits_ne_nil _

theorem ne_of_isDigit_or {c d : Char} (hc : c.isDigit = true ∨ c = '-') (hd : d.isDigit = false) (hne : d ≠ '-') :
    c ≠ d := by
  rintro rfl
  rcases hc with hdigit | hminus
  · exact absurd (hdigit.symm.trans hd) (by decide)
  · exact hne hminus

/-- What has been written of the ranges are digits, minus signs and commas. -/
theorem rangesText_chars (ranges : List CoreRange) : ∀ c ∈ rangesText ranges, (c.isDigit = true ∨ c = '-') ∨ c = ',' := by
  induction ranges with
  | nil =>
      intro c hc
      cases hc
  | cons range ranges ih =>
      intro c hc
      rw [rangesText, List.map_cons] at hc
      cases ranges with
      | nil =>
          rw [List.map_nil, List.intercalate_singleton] at hc
          exact .inl (text_chars range c hc)
      | cons next ranges =>
          rw [List.map_cons, List.intercalate_cons_cons, List.append_assoc] at hc
          rcases List.mem_append.mp hc with hrange | hrest
          · exact .inl (text_chars range c hrange)
          · rcases List.mem_append.mp hrest with hcomma | hranges
            · exact .inr (List.mem_singleton.mp hcomma)
            · exact ih c hranges

/-- A list that fits into the buffer is read again. -/
theorem readNode_text (hfits : (rangesText ranges).length ≤ 511) (node : ℕ) (topo : NumaTopology) :
    readNode (some (rangesText ranges ++ ['\n'])) topo node = (knownCores ranges).foldl (claim node) topo := by
  have hchars : ∀ c ∈ rangesText ranges, c ≠ '\n' ∧ c ≠ Char.ofNat 0 := by
    intro c hc
    rcases rangesText_chars ranges c hc with hdigit | rfl
    · exact ⟨ne_of_isDigit_or hdigit (by decide) (by decide), ne_of_isDigit_or hdigit (by decide) (by decide)⟩
    · exact ⟨by decide, by decide⟩
  have hread : ∃ closed : Bool, Scanf.fgets 512 (rangesText ranges ++ ['\n']) =
      some (rangesText ranges ++ if closed then ['\n'] else []) := Scanf.fgets_line hfits hchars
  obtain ⟨closed, hline⟩ := hread
  have htokens : Scanf.tokens NumaTopology.isDelimiter (rangesText ranges ++ if closed then ['\n'] else []) =
      ranges.map CoreRange.text := by
    refine Scanf.tokens_intercalate ?_ ?_ rfl rfl closed
    · intro piece hpiece
      obtain ⟨range, -, rfl⟩ := List.mem_map.mp hpiece
      exact text_ne_nil range
    · intro piece hpiece c hc
      obtain ⟨range, -, rfl⟩ := List.mem_map.mp hpiece
      have hcomma := ne_of_isDigit_or (d := ',') (text_chars range c hc) (by decide) (by decide)
      have hend := ne_of_isDigit_or (d := '\n') (text_chars range c hc) (by decide) (by decide)
      simp [NumaTopology.isDelimiter, hcomma, hend]
  rw [readNode, Option.bind_some, hline]
  dsimp only
  rw [htokens, List.foldl_map, knownCores, coresOf]
  clear htokens hline hchars hfits
  induction ranges generalizing topo with
  | nil => rfl
  | cons range ranges ih =>
      rw [List.foldl_cons, parseToken_text, ih, List.flatMap_cons, List.filter_append, List.foldl_append]

/-! ## All lists -/

/-- What the cores of a list change. -/
theorem foldl_claim (node : ℕ) (cores : List ℕ) (topo : NumaTopology) :
    cores.foldl (claim node) topo =
      { topo with
        coresPerNode := update topo.coresPerNode node (topo.coresPerNode node + UInt32.ofNat cores.length)
        coreToNode := fun core => if core ∈ cores then UInt32.ofNat node else topo.coreToNode core } := by
  induction cores generalizing topo with
  | nil => simp
  | cons core cores ih =>
      have hcount : topo.coresPerNode node + 1 + UInt32.ofNat cores.length =
          topo.coresPerNode node + UInt32.ofNat (cores.length + 1) := by
        rw [UInt32.ofNat_add, UInt32.add_assoc, UInt32.add_comm 1]
        rfl
      rw [List.foldl_cons, ih, claim]
      dsimp only
      rw [update_self, update_idem, hcount]
      congr 1
      funext other
      by_cases heq : other = core
      · simp [heq]
      · simp [heq]

/-- What has been read of the first `k` nodes of a machine. -/
structure Reads (machine : List (List CoreRange)) (k : ℕ) (topo : NumaTopology) : Prop where
  nodes : topo.nodeCount = UInt32.ofNat (min machine.length maxNumaNodes)
  perNode : ∀ node, topo.coresPerNode node =
    if node < k then UInt32.ofNat (knownCores (machine.getD node [])).length else 0
  toNode : ∀ node < k, ∀ core ∈ knownCores (machine.getD node []), topo.coreToNode core = UInt32.ofNat node
  others : ∀ core, (∀ node < k, core ∉ knownCores (machine.getD node [])) → topo.coreToNode core = 0

/-- The next node is read. -/
theorem Reads.next {machine : List (List CoreRange)} {k : ℕ} (h : Reads machine k topo)
    (hdisjoint : ∀ node < k, ∀ core ∈ knownCores (machine.getD node []), core ∉ knownCores (machine.getD k [])) :
    Reads machine (k + 1) ((knownCores (machine.getD k [])).foldl (claim k) topo) := by
  rw [foldl_claim]
  refine ⟨h.nodes, fun node => ?_, fun node hnode core hcore => ?_, fun core hcore => ?_⟩
  · rcases lt_trichotomy node k with hlt | rfl | hgt
    · rw [if_pos (Nat.lt_succ_of_lt hlt)]
      refine (update_of_ne hlt.ne _ _).trans ?_
      rw [h.perNode, if_pos hlt]
    · rw [if_pos (Nat.lt_succ_self node)]
      refine (update_self _ _ _).trans ?_
      rw [h.perNode, if_neg (lt_irrefl node), UInt32.zero_add]
    · rw [if_neg (by omega)]
      refine (update_of_ne hgt.ne' _ _).trans ?_
      rw [h.perNode, if_neg (by omega)]
  · dsimp only
    rcases Nat.lt_succ_iff_lt_or_eq.mp hnode with hlt | rfl
    · rw [if_neg (hdisjoint node hlt core hcore)]
      exact h.toNode node hlt core hcore
    · exact if_pos hcore
  · dsimp only
    rw [if_neg (hcore k (Nat.lt_succ_self k))]
    exact h.others core fun node hnode => hcore node (Nat.lt_succ_of_lt hnode)

theorem reads_range {machine : List (List CoreRange)} (topo : NumaTopology) (h : Reads machine 0 topo)
    (hfits : ∀ ranges ∈ machine, (rangesText ranges).length ≤ 511) (honce : (machine.flatMap coresOf).Nodup) (k : ℕ)
    (hk : k ≤ machine.length) : Reads machine k ((List.range k).foldl (fun topo node =>
      readNode (machine[node]?.map fun ranges => rangesText ranges ++ ['\n']) topo node) topo) := by
  induction k with
  | zero => exact h
  | succ k ih =>
      have hget : machine[k]? = some machine[k] := List.getElem?_eq_getElem hk
      have hgetD : machine.getD k [] = machine[k] := by
        rw [List.getD_eq_getElem?_getD, hget]
        rfl
      rw [List.range_succ, List.foldl_append, List.foldl_cons, List.foldl_nil, hget, Option.map_some,
        readNode_text (hfits _ (List.getElem_mem hk)), ← hgetD]
      refine (ih (Nat.le_of_succ_le hk)).next fun node hnode core hcore hboth => ?_
      have hdisjoint := List.pairwise_iff_getElem.mp (List.nodup_flatMap.mp honce).2 node k (hnode.trans hk) hk hnode
      rw [List.getD_eq_getElem?_getD, List.getElem?_eq_getElem (hnode.trans hk)] at hcore
      rw [hgetD] at hboth
      exact hdisjoint (List.mem_of_mem_filter hcore) (List.mem_of_mem_filter hboth)

theorem length_takeWhile_range (m n : ℕ) : ((List.range n).takeWhile (· < m)).length = min m n := by
  rcases le_total n m with hle | hle
  · have hall : ∀ i ∈ List.range n, decide (i < m) = true := fun i hi =>
      decide_eq_true ((List.mem_range.mp hi).trans_le hle)
    rw [List.takeWhile_eq_self_iff.mpr hall, List.length_range, Nat.min_eq_right hle]
  · obtain ⟨j, rfl⟩ := Nat.exists_eq_add_of_le hle
    have hall : ∀ i ∈ List.range m, decide (i < m) = true := fun i hi => decide_eq_true (List.mem_range.mp hi)
    have hrest : ((List.range j).map (m + ·)).takeWhile (· < m) = [] := by
      cases j with
      | zero => rfl
      | succ j =>
          rw [List.range_succ_eq_map, List.map_cons]
          exact List.takeWhile_cons_of_neg (by simp)
    rw [List.range_add, List.takeWhile_append_of_pos hall, hrest, List.append_nil, List.length_range,
      Nat.min_eq_left hle]

theorem length_knownCores_le (honce : (coresOf ranges).Nodup) : (knownCores ranges).length ≤ maxCores := by
  have hsubset : knownCores ranges ⊆ List.range maxCores := by
    intro core hcore
    exact List.mem_range.mpr (by simpa using List.of_mem_filter hcore)
  have hle := ((honce.filter _).subperm hsubset).length_le
  rwa [List.length_range] at hle

/-- The cores `0-1,4` and the cores `2-3`. -/
def twoNodes : List (List CoreRange) :=
  [[⟨0, 1, by decide, by decide⟩, ⟨4, 4, by decide, by decide⟩], [⟨2, 3, by decide, by decide⟩]]

end LgxRuntime.Threading
