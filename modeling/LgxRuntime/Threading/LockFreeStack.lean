import LgxRuntime.Lib.Interleaving
import LgxRuntime.Lib.TreiberStack
import LgxRuntime.Threading.SpscQueue

/-!
# The lock-free stack

A Treiber stack whose nodes come from `malloc`: a pop frees the node that it has unlinked.  The tag is
counted up by every push and pop, but the compare-and-swaps are on `top` alone, so that it does not protect
them.  A pop may therefore read a node that another pop has freed, and it may unlink a node that has been
freed and pushed again in the meantime, together with what is below it.

The functions are cut into their steps.  An element is copied in one step: nobody else has its node then.
What was pushed, in the order of the compare-and-swaps, and what pops have copied out is recorded in the
state.
-/

namespace LgxRuntime.Threading.LockFreeStack

open Function (update update_self update_of_ne)
open Interleaving (comp_update comp_update_self apply_update_self apply_update_cases forall_update)

/-! ## The stack -/

/-- Where a thread is, with its local variables. -/
inductive Pc (Node Element : Type)
  | idle
  | returns (result : ThreadingError)
  /-- `lgx_lfstack_push`, at `malloc`. -/
  | pushAlloc (element : Element)
  /-- At the copy of the element. -/
  | pushCopy (node : Node) (element : Element)
  /-- At the load of `top`. -/
  | pushLoad (node : Node) (element : Element)
  /-- At the write of `next`. -/
  | pushNext (node : Node) (oldTop : Option Node) (element : Element)
  /-- At the weak compare-and-swap on `top`. -/
  | pushCas (node : Node) (oldTop : Option Node) (element : Element)
  | pushTag
  | pushCount
  /-- `lgx_lfstack_pop`, at the load of `top`. -/
  | popLoad
  /-- At the read of `next`. -/
  | popNext (oldTop : Node)
  /-- At the weak compare-and-swap on `top`. -/
  | popCas (oldTop : Node) (newTop : Option Node)
  /-- At the copy of the element. -/
  | popCopy (oldTop : Node)
  | popTag (oldTop : Node)
  | popCount (oldTop : Node)
  /-- At `free`. -/
  | popFree (oldTop : Node)

/-- `struct lgx_lfstack_s` with the memory of its nodes and its threads. -/
structure State (Node Element Thread : Type) where
  top : Option Node
  tag : ℕ
  count : ℕ
  next : Node → Option Node
  data : Node → Element
  /-- What `malloc` has returned and was not freed. -/
  live : Node → Bool
  pc : Thread → Pc Node Element
  pushed : List Element
  returned : List Element

variable {Node Element Thread : Type}

/-- An empty stack after `lgx_lfstack_create`, with any content of the memory. -/
structure Initial (s : State Node Element Thread) : Prop where
  top : s.top = none
  tag : s.tag = 0
  count : s.count = 0
  live : ∀ node, s.live node = false
  pc : ∀ t, s.pc t = .idle
  pushed : s.pushed = []
  returned : s.returned = []

/-- A call, an answer of `malloc`, or the next step of a thread, in which a weak compare-and-swap may fail
for no reason. -/
inductive Action (Node Element Thread : Type)
  | push (t : Thread) (element : Element)
  | pop (t : Thread)
  | malloc (t : Thread) (node : Option Node)
  | next (t : Thread) (weak : Bool)

variable [DecidableEq Node] [DecidableEq Thread]

/-- A thread moves on. -/
def State.goto (s : State Node Element Thread) (t : Thread) (pc : Pc Node Element) :
    State Node Element Thread :=
  { s with pc := update s.pc t pc }

/-- The next step of `lgx_lfstack_push`, after `malloc`. -/
def stepPush (s : State Node Element Thread) (t : Thread) (weak : Bool) :
    Pc Node Element → Option (State Node Element Thread)
  | .pushCopy node element =>
      some { s.goto t (.pushLoad node element) with data := update s.data node element }
  | .pushLoad node element => some (s.goto t (.pushNext node s.top element))
  | .pushNext node oldTop element =>
      some { s.goto t (.pushCas node oldTop element) with next := update s.next node oldTop }
  | .pushCas node oldTop element =>
      if s.top = oldTop ∧ weak = false then
        some { s.goto t .pushTag with top := some node, pushed := element :: s.pushed }
      -- the loop loads `top` again
      else some (s.goto t (.pushLoad node element))
  | .pushTag => some { s.goto t .pushCount with tag := wrap64 (s.tag + 1) }
  | .pushCount => some { s.goto t (.returns .success) with count := wrap64 (s.count + 1) }
  | _ => none

/-- The next step of `lgx_lfstack_pop`. -/
def stepPop (s : State Node Element Thread) (t : Thread) (weak : Bool) :
    Pc Node Element → Option (State Node Element Thread)
  | .popLoad =>
      match s.top with
      | none => some (s.goto t (.returns .queueEmpty))
      | some node => some (s.goto t (.popNext node))
  | .popNext oldTop => some (s.goto t (.popCas oldTop (s.next oldTop)))
  | .popCas oldTop newTop =>
      -- `top` is compared, and the tag is not
      if s.top = some oldTop ∧ weak = false then some { s.goto t (.popCopy oldTop) with top := newTop }
      else some (s.goto t .popLoad)
  | .popCopy oldTop =>
      some { s.goto t (.popTag oldTop) with returned := s.data oldTop :: s.returned }
  | .popTag oldTop => some { s.goto t (.popCount oldTop) with tag := wrap64 (s.tag + 1) }
  | .popCount oldTop => some { s.goto t (.popFree oldTop) with count := sub64 s.count 1 }
  -- another pop may have loaded this node
  | .popFree oldTop => some { s.goto t (.returns .success) with live := update s.live oldTop false }
  | _ => none

/-- One step. -/
def step (s : State Node Element Thread) : Action Node Element Thread →
    Option (State Node Element Thread)
  | .push t element =>
      match s.pc t with
      | .idle => some (s.goto t (.pushAlloc element))
      | _ => none
  | .pop t =>
      match s.pc t with
      | .idle => some (s.goto t .popLoad)
      | _ => none
  | .malloc t node =>
      match s.pc t, node with
      | .pushAlloc _, none => some (s.goto t (.returns .outOfMemory))
      | .pushAlloc element, some node =>
          some { s.goto t (.pushCopy node element) with live := update s.live node true }
      | _, _ => none
  | .next t weak =>
      match s.pc t with
      | .returns _ => some (s.goto t .idle)
      | pc => stepPush s t weak pc <|> stepPop s t weak pc

/-- `malloc` returns memory that is not in use, which may have been freed before. -/
def Allowed (s : State Node Element Thread) : Action Node Element Thread → Prop
  | .malloc _ (some node) => s.live node = false
  | _ => True

/-- The states of the runs of any number of threads. -/
def Reachable : State Node Element Thread → Prop :=
  Interleaving.Reachable Initial step Allowed

/-! ## What a stack should do -/

/-- The node that a pop has unlinked and not copied yet. -/
def Pc.takes : Pc Node Element → Option Node
  | .popCopy oldTop => some oldTop
  | _ => none

/-- The node that a pop is about to read. -/
def Pc.reads : Pc Node Element → Option Node
  | .popNext oldTop | .popCopy oldTop => some oldTop
  | _ => none

/-- An element is returned at most as often as it was pushed; those that are not returned are in nodes that
are linked from `top`, or in the hand of a pop that has unlinked them; and pops read only nodes that are
not freed. -/
structure Sound [DecidableEq Element] (s : State Node Element Thread) : Prop where
  count_le : ∀ element, s.returned.count element ≤ s.pushed.count element
  linked : ∃ nodes takers, Linked s.next s.top nodes ∧
    Balance (fun t => (s.pc t).takes.map s.data) takers s.pushed s.returned (nodes.map s.data)
  reads : ∀ t node, (s.pc t).reads = some node → s.live node = true

/-- A node is not freed as long as another pop is about to read it, and a pop that finds the node that it
has loaded at the top finds the `next` that it has read in this node. -/
def Fits (s : State Node Element Thread) : Action Node Element Thread → Prop
  | .next t weak =>
      match s.pc t with
      | .popCas oldTop newTop => s.top = some oldTop → weak = false → s.next oldTop = newTop
      | .popFree oldTop => ∀ u, s.pc u ≠ .popNext oldTop
      | _ => True
  | _ => True

/-- The states of the runs in which every step fits. -/
def FitReachable : State Node Element Thread → Prop :=
  Interleaving.Reachable Initial step fun s a => Allowed s a ∧ Fits s a

instance (s : State Node Element Thread) : (a : Action Node Element Thread) → Decidable (Allowed s a)
  | .malloc _ (some node) => inferInstanceAs (Decidable (s.live node = false))
  | .malloc _ none | .push _ _ | .pop _ | .next _ _ => inferInstanceAs (Decidable True)

/-- A pop loads `top`; before it reads `next`, another pop has freed the node. -/
theorem freed_node_is_read : ∃ s : State ℕ ℕ Bool, Reachable s ∧ (s.pc true).reads = some 1 ∧
    s.live 1 = false ∧ ¬ Sound s := by
  let s₀ : State ℕ ℕ Bool :=
    { top := none, tag := 0, count := 0, next := fun _ => none, data := fun _ => 0,
      live := fun _ => false, pc := fun _ => .idle, pushed := [], returned := [] }
  let actions : List (Action ℕ ℕ Bool) :=
    List.flatten [[.push true 7, .malloc true (some 1)], List.replicate 7 (.next true false),
      [.pop true, .next true false, .pop false], List.replicate 7 (.next false false)]
  have hresult : (Interleaving.run
      (Interleaving.guarded step fun s a => decide (Allowed s a)) actions s₀).map
      (fun s => ((s.pc true).reads, s.live 1)) = some (some 1, false) := by
    decide +kernel
  have hinit : Reachable s₀ := .init ⟨rfl, rfl, rfl, fun _ => rfl, fun _ => rfl, rfl, rfl⟩
  obtain ⟨s, hreach, hs⟩ :=
    hinit.exists_of_run_guarded (fun _ _ _ h => of_decide_eq_true h) hresult
  obtain ⟨hreads, hlive⟩ := Prod.mk.inj hs
  refine ⟨s, hreach, hreads, hlive, fun hsound => ?_⟩
  have htrue := hsound.reads true 1 hreads
  rw [hlive] at htrue
  cases htrue

/-! ## The nodes -/

/-- The node that a thread is about to push, or has unlinked. -/
def Pc.owns : Pc Node Element → Option Node
  | .pushCopy node _ | .pushLoad node _ | .pushNext node _ _ | .pushCas node _ _ => some node
  | .popCopy oldTop | .popTag oldTop | .popCount oldTop | .popFree oldTop => some oldTop
  | _ => none

/-- What a thread knows about its node. -/
def Known (s : State Node Element Thread) : Pc Node Element → Prop
  | .pushLoad node element | .pushNext node _ element => s.data node = element
  | .pushCas node oldTop element => s.data node = element ∧ s.next node = oldTop
  | .popNext oldTop => s.live oldTop = true
  | _ => True

/-- The nodes on the stack are live, and so are those that a thread owns. -/
structure Rep (s : State Node Element Thread) (nodes : List Node) (takers : List Thread) : Prop where
  stack : Treiber s.next s.top (fun t => (s.pc t).owns) nodes
  balance : Balance (fun t => (s.pc t).takes.map s.data) takers s.pushed s.returned (nodes.map s.data)
  live_stack : ∀ node ∈ nodes, s.live node = true
  live_owned : ∀ t node, (s.pc t).owns = some node → s.live node = true
  known : ∀ t, Known s (s.pc t)

namespace Rep

variable {s s' : State Node Element Thread} {nodes : List Node} {takers : List Thread} {t : Thread}
  {pc pc' : Pc Node Element}

omit [DecidableEq Node] in
/-- What the other threads know does not change. -/
theorem known_update (h : Rep s nodes takers) (hpc : s'.pc = update s.pc t pc')
    (hother : ∀ u, u ≠ t → Known s (s.pc u) → Known s' (s.pc u)) (hself : Known s' pc') :
    ∀ u, Known s' (s'.pc u) := by
  rw [hpc]
  exact forall_update (P := fun _ => Known s) (Q := fun _ => Known s') h.known hother hself

omit [DecidableEq Node] in
/-- A thread moves on with what it has. -/
theorem goto (h : Rep s nodes takers) (hpc : s.pc t = pc) (howns : pc'.owns = pc.owns)
    (htakes : pc'.takes = pc.takes) (hknown : Known s pc') : Rep (s.goto t pc') nodes takers := by
  rw [← hpc] at howns htakes
  refine ⟨?_, ?_, h.live_stack, fun u node hu => ?_, h.known_update rfl (fun _ _ hu => hu) hknown⟩
  · simp only [State.goto, comp_update_self howns]
    exact h.stack
  · have htakes' : pc'.takes.map s.data = (s.pc t).takes.map s.data := by rw [htakes]
    have heq := @comp_update_self _ _ _ _ s.pc t pc' (fun pc => pc.takes.map s.data) htakes'
    simp only [State.goto, heq]
    exact h.balance
  · exact h.live_owned u node ((apply_update_self howns u).symm.trans hu)

omit [DecidableEq Node] in
/-- A thread moves on and counts. -/
theorem gotoCount (h : Rep s nodes takers) (hpc : s.pc t = pc) (howns : pc'.owns = pc.owns)
    (htakes : pc'.takes = pc.takes) (hknown : Known s pc') (tag count : ℕ) :
    Rep { s.goto t pc' with tag := tag, count := count } nodes takers :=
  have hgoto := h.goto hpc howns htakes hknown
  ⟨hgoto.stack, hgoto.balance, hgoto.live_stack, hgoto.live_owned, hgoto.known⟩

omit [DecidableEq Node] [DecidableEq Thread] in
/-- A node has one owner. -/
theorem ne_of_owns (h : Rep s nodes takers) {u : Thread} (hut : u ≠ t) {node node' : Node}
    (ht : (s.pc t).owns = some node) (hu : (s.pc u).owns = some node') : node' ≠ node := by
  rintro rfl
  exact hut (h.stack.unique u t _ hu ht)

omit [DecidableEq Node] in
/-- The takers do not change if a thread that has not unlinked a node moves on to such a place. -/
theorem takes_update {data : Node → Element} (hpc : s.pc t = pc) (htakes : pc.takes = none)
    (htakes' : pc'.takes = none) :
    (fun u => (update s.pc t pc' u).takes.map data) = fun u => (s.pc u).takes.map data := by
  refine @comp_update_self _ _ _ _ s.pc t pc' (fun pc => pc.takes.map data) ?_
  simp only [hpc, htakes, htakes']

/-! ### Pushing -/

/-- `malloc` returns a node that nobody has. -/
theorem malloc (h : Rep s nodes takers) {element : Element} (hpc : s.pc t = .pushAlloc element)
    {node : Node} (hfree : s.live node = false) :
    Rep { s.goto t (.pushCopy node element) with live := update s.live node true } nodes takers := by
  -- the node was not live, so that it is neither on the stack nor with a thread
  have hnot : node ∉ nodes := by
    intro hmem
    rw [h.live_stack node hmem] at hfree
    cases hfree
  have hnobody : ∀ u, (s.pc u).owns ≠ some node := by
    intro u hu
    rw [h.live_owned u node hu] at hfree
    cases hfree
  have hlive : ∀ x, s.live x = true → update s.live node true x = true := by
    intro x hx
    by_cases hxn : x = node
    · rw [hxn, update_self]
    · rwa [update_of_ne hxn]
  refine ⟨?_, ?_, fun x hx => hlive x (h.live_stack x hx), fun u x hu => ?_,
    h.known_update rfl (fun u _ hu => ?_) trivial⟩
  · simp only [State.goto, comp_update Pc.owns]
    exact h.stack.acquire hnot hnobody
  · simp only [State.goto, takes_update hpc rfl (show Pc.takes (Pc.pushCopy node element) = none from rfl)]
    exact h.balance
  · rcases apply_update_cases hu with ⟨-, hnode⟩ | ⟨-, hu⟩
    · rw [← Option.some.inj hnode]
      exact update_self ..
    · exact hlive x (h.live_owned u x hu)
  · cases hpcu : s.pc u with
    | popNext oldTop =>
        rw [hpcu] at hu
        exact hlive oldTop hu
    | _ => rw [hpcu] at hu; exact hu

/-- The element is copied into the node. -/
theorem pushCopy (h : Rep s nodes takers) {node : Node} {element : Element}
    (hpc : s.pc t = .pushCopy node element) :
    Rep { s.goto t (.pushLoad node element) with data := update s.data node element } nodes takers := by
  have howns : (s.pc t).owns = some node := by rw [hpc]; rfl
  have howns' : Pc.owns (.pushLoad node element) = (s.pc t).owns := by rw [hpc]; rfl
  have hother : ∀ u, u ≠ t → ∀ x, (s.pc u).owns = some x → update s.data node element x = s.data x :=
    fun u hut x hu => update_of_ne (h.ne_of_owns hut howns hu) ..
  -- the other threads, and the stack, have other nodes
  have htakes : (fun u => (update s.pc t (.pushLoad node element) u).takes.map
      (update s.data node element)) = fun u => (s.pc u).takes.map s.data := by
    rw [takes_update hpc rfl (show Pc.takes (Pc.pushLoad node element) = none from rfl)]
    funext u
    cases hpcu : s.pc u with
    | popCopy oldTop =>
        have hut : u ≠ t := by
          rintro rfl
          rw [hpc] at hpcu
          cases hpcu
        simp only [Pc.takes, Option.map_some, hother u hut oldTop (by rw [hpcu]; rfl)]
    | _ => rfl
  have hnodes : nodes.map (update s.data node element) = nodes.map s.data := by
    refine List.map_congr_left fun x hx => update_of_ne ?_ ..
    rintro rfl
    exact h.stack.owned t x howns hx
  refine ⟨?_, ?_, h.live_stack, fun u x hu => ?_,
    h.known_update rfl (fun u hut hu => ?_) (update_self ..)⟩
  · simp only [State.goto, comp_update_self howns']
    exact h.stack
  · simp only [State.goto, htakes, hnodes]
    exact h.balance
  · exact h.live_owned u x ((apply_update_self howns' u).symm.trans hu)
  · cases hpcu : s.pc u with
    | pushLoad x element' | pushNext x oldTop element' =>
        rw [hpcu] at hu
        exact (hother u hut x (by rw [hpcu]; rfl)).trans hu
    | pushCas x oldTop element' =>
        rw [hpcu] at hu
        exact ⟨(hother u hut x (by rw [hpcu]; rfl)).trans hu.1, hu.2⟩
    | _ => rw [hpcu] at hu; exact hu

/-- The node points to the top that was loaded. -/
theorem pushNext (h : Rep s nodes takers) {node : Node} {oldTop : Option Node} {element : Element}
    (hpc : s.pc t = .pushNext node oldTop element) :
    Rep { s.goto t (.pushCas node oldTop element) with next := update s.next node oldTop } nodes
      takers := by
  have howns : (s.pc t).owns = some node := by rw [hpc]; rfl
  have howns' : Pc.owns (.pushCas node oldTop element) = (s.pc t).owns := by rw [hpc]; rfl
  have hdata : s.data node = element := by
    have hknown := h.known t
    rwa [hpc] at hknown
  refine ⟨?_, ?_, h.live_stack, fun u x hu => ?_,
    h.known_update rfl (fun u hut hu => ?_) ⟨hdata, update_self ..⟩⟩
  · simp only [State.goto, comp_update_self howns']
    exact h.stack.setNext (h.stack.owned t node howns) oldTop
  · simp only [State.goto, takes_update hpc rfl
      (show Pc.takes (Pc.pushCas node oldTop element) = none from rfl)]
    exact h.balance
  · exact h.live_owned u x ((apply_update_self howns' u).symm.trans hu)
  · cases hpcu : s.pc u with
    | pushCas x oldTop' element' =>
        rw [hpcu] at hu
        have hne := h.ne_of_owns hut howns (show (s.pc u).owns = some x by rw [hpcu]; rfl)
        exact ⟨hu.1, (update_of_ne hne ..).trans hu.2⟩
    | _ => rw [hpcu] at hu; exact hu

omit [DecidableEq Node] in
/-- The node becomes the top. -/
theorem pushCas (h : Rep s nodes takers) {node : Node} {oldTop : Option Node} {element : Element}
    (hpc : s.pc t = .pushCas node oldTop element) (htop : s.top = oldTop) :
    Rep { s.goto t .pushTag with top := some node, pushed := element :: s.pushed } (node :: nodes)
      takers := by
  have howns : (s.pc t).owns = some node := by rw [hpc]; rfl
  obtain ⟨hdata, hnext⟩ : s.data node = element ∧ s.next node = oldTop := by
    have hknown := h.known t
    rwa [hpc] at hknown
  refine ⟨?_, ?_, ?_, fun u x hu => ?_, h.known_update rfl (fun u _ hu => ?_) trivial⟩
  · simp only [State.goto, comp_update Pc.owns]
    exact h.stack.push howns (hnext.trans htop.symm)
  · simp only [State.goto, takes_update hpc rfl (show Pc.takes Pc.pushTag = none from rfl),
      List.map_cons, hdata]
    exact h.balance.push element
  · exact List.forall_mem_cons.mpr ⟨h.live_owned t node howns, h.live_stack⟩
  · rcases apply_update_cases hu with ⟨-, hnone⟩ | ⟨-, hu⟩
    · cases hnone
    · exact h.live_owned u x hu
  · cases hpcu : s.pc u <;> rw [hpcu] at hu <;> exact hu

/-! ### Popping -/

omit [DecidableEq Node] in
/-- The top is live. -/
theorem popLoad (h : Rep s nodes takers) (hpc : s.pc t = .popLoad) {node : Node}
    (htop : s.top = some node) : Rep (s.goto t (.popNext node)) nodes takers := by
  refine h.goto hpc rfl rfl (h.live_stack node ?_)
  have hhead := h.stack.linked.head_eq
  rw [htop] at hhead
  exact List.mem_of_head? hhead.symm

omit [DecidableEq Node] in
/-- The top is unlinked; it still points to the node that becomes the top. -/
theorem popCas (h : Rep s nodes takers) {oldTop : Node} {newTop : Option Node}
    (hpc : s.pc t = .popCas oldTop newTop) (htop : s.top = some oldTop)
    (hnext : s.next oldTop = newTop) :
    ∃ rest, Rep { s.goto t (.popCopy oldTop) with top := newTop } rest (t :: takers) := by
  obtain ⟨rest, rfl, hstack⟩ := h.stack.pop (t := t) htop
  have htakes : (s.pc t).takes.map s.data = none := by rw [hpc]; rfl
  refine ⟨rest, ?_, ?_, fun x hx => h.live_stack x (List.mem_cons_of_mem _ hx), fun u x hu => ?_,
    h.known_update rfl (fun u _ hu => ?_) trivial⟩
  · simp only [State.goto, comp_update Pc.owns, ← hnext]
    exact hstack
  · have heq := @comp_update _ _ _ _ s.pc t (.popCopy oldTop) fun pc : Pc Node Element =>
      pc.takes.map s.data
    simp only [State.goto, heq]
    exact h.balance.take htakes
  · rcases apply_update_cases hu with ⟨-, hnode⟩ | ⟨-, hu⟩
    · rw [← Option.some.inj hnode]
      exact h.live_stack oldTop (List.mem_cons_self ..)
    · exact h.live_owned u x hu
  · cases hpcu : s.pc u <;> rw [hpcu] at hu <;> exact hu

omit [DecidableEq Node] in
/-- The element is returned. -/
theorem popCopy (h : Rep s nodes takers) {oldTop : Node} (hpc : s.pc t = .popCopy oldTop) :
    Rep { s.goto t (.popTag oldTop) with returned := s.data oldTop :: s.returned } nodes
      (takers.erase t) := by
  have howns : (Pc.popTag oldTop : Pc Node Element).owns = (s.pc t).owns := by rw [hpc]; rfl
  have htakes : (s.pc t).takes.map s.data = some (s.data oldTop) := by rw [hpc]; rfl
  refine ⟨?_, ?_, h.live_stack, fun u x hu => ?_, h.known_update rfl (fun u _ hu => ?_) trivial⟩
  · simp only [State.goto, comp_update_self howns]
    exact h.stack
  · have heq := @comp_update _ _ _ _ s.pc t (.popTag oldTop) fun pc : Pc Node Element =>
      pc.takes.map s.data
    simp only [State.goto, heq]
    exact h.balance.give htakes
  · exact h.live_owned u x ((apply_update_self howns u).symm.trans hu)
  · cases hpcu : s.pc u <;> rw [hpcu] at hu <;> exact hu

/-- The node is freed, and nobody is about to read it. -/
theorem popFree (h : Rep s nodes takers) {oldTop : Node} (hpc : s.pc t = .popFree oldTop)
    (hunread : ∀ u, s.pc u ≠ .popNext oldTop) :
    Rep { s.goto t (.returns .success) with live := update s.live oldTop false } nodes takers := by
  have howns : (s.pc t).owns = some oldTop := by rw [hpc]; rfl
  refine ⟨?_, ?_, fun x hx => ?_, fun u x hu => ?_, h.known_update rfl (fun u hut hu => ?_) trivial⟩
  · simp only [State.goto, comp_update Pc.owns]
    exact h.stack.release
  · simp only [State.goto, takes_update hpc rfl (show Pc.takes (Pc.returns .success) = none from rfl)]
    exact h.balance
  · refine (update_of_ne ?_ ..).trans (h.live_stack x hx)
    rintro rfl
    exact h.stack.owned t x howns hx
  · rcases apply_update_cases hu with ⟨-, hnone⟩ | ⟨hut, hu⟩
    · cases hnone
    · exact (update_of_ne (h.ne_of_owns hut howns hu) ..).trans (h.live_owned u x hu)
  · cases hpcu : s.pc u with
    | popNext x =>
        rw [hpcu] at hu
        have hne : x ≠ oldTop := by
          rintro rfl
          exact hunread u hpcu
        exact (update_of_ne hne ..).trans hu
    | _ => rw [hpcu] at hu; exact hu

end Rep

/-! ## Runs -/

/-- The stack is in order. -/
def Ordered (s : State Node Element Thread) : Prop :=
  ∃ nodes takers, Rep s nodes takers

omit [DecidableEq Node] [DecidableEq Thread] in
theorem Ordered.init {s : State Node Element Thread} (h : Initial s) : Ordered s := by
  have howns : ∀ t, (s.pc t).owns = none := by
    intro t
    rw [h.pc t]
    rfl
  have htakes : (fun t => (s.pc t).takes.map s.data) = fun _ => none := by
    funext t
    rw [h.pc t]
    rfl
  refine ⟨[], [], ⟨h.top, ?_, ?_⟩, ?_, ?_, ?_, fun t => ?_⟩
  · intro t node ht
    rw [howns t] at ht
    cases ht
  · intro t u node ht
    rw [howns t] at ht
    cases ht
  · rw [htakes, h.pushed, h.returned]
    exact Balance.init
  · intro node hnode
    cases hnode
  · intro t node ht
    rw [howns t] at ht
    cases ht
  · rw [h.pc t]
    trivial

theorem Ordered.push {s s' : State Node Element Thread} {t : Thread} {weak : Bool} (h : Ordered s)
    (hstep : stepPush s t weak (s.pc t) = some s') : Ordered s' := by
  obtain ⟨nodes, takers, h⟩ := h
  cases hpc : s.pc t with
  | pushCopy node element =>
      rw [hpc] at hstep
      cases hstep
      exact ⟨nodes, takers, h.pushCopy hpc⟩
  | pushLoad node element =>
      have hknown := h.known t
      rw [hpc] at hstep hknown
      cases hstep
      exact ⟨nodes, takers, h.goto hpc rfl rfl hknown⟩
  | pushNext node oldTop element =>
      rw [hpc] at hstep
      cases hstep
      exact ⟨nodes, takers, h.pushNext hpc⟩
  | pushCas node oldTop element =>
      have hknown := h.known t
      rw [hpc] at hstep hknown
      simp only [stepPush] at hstep
      split at hstep
      · rename_i hwon
        cases hstep
        exact ⟨_, takers, h.pushCas hpc hwon.1⟩
      · cases hstep
        exact ⟨nodes, takers, h.goto hpc rfl rfl hknown.1⟩
  | pushTag | pushCount =>
      rw [hpc] at hstep
      cases hstep
      refine ⟨nodes, takers, h.gotoCount hpc ?_ ?_ ?_ _ _⟩
      · rfl
      · rfl
      · trivial
  | _ =>
      rw [hpc] at hstep
      cases hstep

theorem Ordered.pop {s s' : State Node Element Thread} {t : Thread} {weak : Bool} (h : Ordered s)
    (hfits : Fits s (.next t weak)) (hstep : stepPop s t weak (s.pc t) = some s') : Ordered s' := by
  obtain ⟨nodes, takers, h⟩ := h
  cases hpc : s.pc t with
  | popLoad =>
      rw [hpc] at hstep
      simp only [stepPop] at hstep
      split at hstep
      · cases hstep
        exact ⟨nodes, takers, h.goto hpc rfl rfl trivial⟩
      · rename_i node htop
        cases hstep
        exact ⟨nodes, takers, h.popLoad hpc htop⟩
  | popNext oldTop =>
      rw [hpc] at hstep
      cases hstep
      exact ⟨nodes, takers, h.goto hpc rfl rfl trivial⟩
  | popCas oldTop newTop =>
      rw [hpc] at hstep
      simp only [stepPop] at hstep
      split at hstep
      · rename_i hwon
        cases hstep
        simp only [Fits, hpc] at hfits
        obtain ⟨rest, h'⟩ := h.popCas hpc hwon.1 (hfits hwon.1 hwon.2)
        exact ⟨rest, _, h'⟩
      · cases hstep
        exact ⟨nodes, takers, h.goto hpc rfl rfl trivial⟩
  | popCopy oldTop =>
      rw [hpc] at hstep
      cases hstep
      exact ⟨nodes, _, h.popCopy hpc⟩
  | popTag oldTop | popCount oldTop =>
      rw [hpc] at hstep
      cases hstep
      refine ⟨nodes, takers, h.gotoCount hpc ?_ ?_ ?_ _ _⟩
      · rfl
      · rfl
      · trivial
  | popFree oldTop =>
      rw [hpc] at hstep
      cases hstep
      simp only [Fits, hpc] at hfits
      exact ⟨nodes, takers, h.popFree hpc hfits⟩
  | _ =>
      rw [hpc] at hstep
      cases hstep

/-- Every step that fits keeps the stack in order. -/
theorem Ordered.step {s s' : State Node Element Thread} {a : Action Node Element Thread}
    (h : Ordered s) (hallowed : Allowed s a) (hfits : Fits s a) (hstep : step s a = some s') :
    Ordered s' := by
  cases a with
  | push t element =>
      obtain ⟨nodes, takers, h⟩ := h
      simp only [LockFreeStack.step] at hstep
      split at hstep
      · rename_i hpc
        cases hstep
        exact ⟨nodes, takers, h.goto hpc rfl rfl trivial⟩
      · cases hstep
  | pop t =>
      obtain ⟨nodes, takers, h⟩ := h
      simp only [LockFreeStack.step] at hstep
      split at hstep
      · rename_i hpc
        cases hstep
        exact ⟨nodes, takers, h.goto hpc rfl rfl trivial⟩
      · cases hstep
  | malloc t node =>
      obtain ⟨nodes, takers, h⟩ := h
      simp only [LockFreeStack.step] at hstep
      split at hstep
      · rename_i hpc
        cases hstep
        exact ⟨nodes, takers, h.goto hpc rfl rfl trivial⟩
      · rename_i hpc
        cases hstep
        exact ⟨nodes, takers, h.malloc hpc hallowed⟩
      · cases hstep
  | next t weak =>
      simp only [LockFreeStack.step] at hstep
      split at hstep
      · rename_i hpc
        cases hstep
        obtain ⟨nodes, takers, h⟩ := h
        exact ⟨nodes, takers, h.goto hpc rfl rfl trivial⟩
      · simp only [Option.orElse_eq_orElse, Option.orElse_eq_or, Option.or_eq_some_iff] at hstep
        rcases hstep with hstep | ⟨-, hstep⟩
        · exact h.push hstep
        · exact h.pop hfits hstep

theorem FitReachable.ordered {s : State Node Element Thread} (h : FitReachable s) : Ordered s := by
  apply Interleaving.Reachable.invariant (I := Ordered) h
  · exact fun s hinit => Ordered.init hinit
  · exact fun s s' a hs hallowed hstep => hs.step hallowed.1 hallowed.2 hstep

/-- In a run in which no node is freed while another pop is about to read it, and in which every pop that
unlinks a node finds the `next` that it has read, the stack is sound. -/
theorem sound_if_unread_nodes_freed [DecidableEq Element] {s : State Node Element Thread}
    (hreach : FitReachable s) : Sound s := by
  obtain ⟨nodes, takers, h⟩ := hreach.ordered
  refine ⟨fun element => h.balance.subperm.count_le element, ⟨nodes, takers, h.stack.linked, h.balance⟩,
    fun t node hread => ?_⟩
  cases hpc : s.pc t with
  | popNext oldTop =>
      have hknown := h.known t
      rw [hpc] at hread hknown
      obtain rfl := Option.some.inj hread
      exact hknown
  | popCopy oldTop =>
      rw [hpc] at hread
      obtain rfl := Option.some.inj hread
      exact h.live_owned t oldTop (by rw [hpc]; rfl)
  | _ =>
      rw [hpc] at hread
      cases hread

/-- A check for runs of two threads. -/
def calm (s : State ℕ ℕ Bool) : Action ℕ ℕ Bool → Bool
  | .malloc _ (some node) => decide (s.live node = false)
  | .next t _ =>
      match s.pc t with
      | .popCas oldTop newTop => decide (s.next oldTop = newTop)
      | .popFree oldTop => decide (∀ u, (s.pc u).reads ≠ some oldTop)
      | _ => true
  | _ => true

theorem fits_of_calm {s : State ℕ ℕ Bool} {a : Action ℕ ℕ Bool} (h : calm s a = true) :
    Allowed s a ∧ Fits s a := by
  cases a with
  | push t element | pop t => exact ⟨trivial, trivial⟩
  | malloc t node =>
      cases node with
      | none => exact ⟨trivial, trivial⟩
      | some node => exact ⟨of_decide_eq_true h, trivial⟩
  | next t weak =>
      refine ⟨trivial, ?_⟩
      cases hpc : s.pc t with
      | popCas oldTop newTop =>
          simp only [calm, hpc, decide_eq_true_eq] at h
          simp only [Fits, hpc]
          exact fun _ _ => h
      | popFree oldTop =>
          simp only [calm, hpc, decide_eq_true_eq] at h
          simp only [Fits, hpc]
          intro u hu
          exact h u (by rw [hu]; rfl)
      | _ => simp only [Fits, hpc]

/-- One thread pops the element of the other one, whose second push goes on in the meantime. -/
theorem sound_after_pop : ∃ s : State ℕ ℕ Bool, FitReachable s ∧ s.pushed = [8, 7] ∧ s.returned = [7] ∧
    Sound s := by
  let s₀ : State ℕ ℕ Bool :=
    { top := none, tag := 0, count := 0, next := fun _ => none, data := fun _ => 0,
      live := fun _ => false, pc := fun _ => .idle, pushed := [], returned := [] }
  let actions : List (Action ℕ ℕ Bool) :=
    List.flatten [[.push true 7, .malloc true (some 1)], List.replicate 7 (.next true false),
      [.push true 8, .malloc true (some 2), .next true false, .pop false],
      List.replicate 7 (.next false false), List.replicate 3 (.next true false)]
  have hresult : (Interleaving.run (Interleaving.guarded step calm) actions s₀).map
      (fun s => (s.pushed, s.returned)) = some ([8, 7], [7]) := by
    decide +kernel
  have hinit : FitReachable s₀ := .init ⟨rfl, rfl, rfl, fun _ => rfl, fun _ => rfl, rfl, rfl⟩
  obtain ⟨s, hreach, hs⟩ := hinit.exists_of_run_guarded (fun _ _ _ h => fits_of_calm h) hresult
  obtain ⟨hpushed, hreturned⟩ := Prod.mk.inj hs
  exact ⟨s, hreach, hpushed, hreturned, sound_if_unread_nodes_freed hreach⟩

end LgxRuntime.Threading.LockFreeStack
