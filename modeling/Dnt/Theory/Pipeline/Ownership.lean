import Dnt.Core.Pipeline

/-!
# Owners of Packets

Who owns which packet on a call stack. There is one rule for each function that
allocates, uses or frees a packet. About the stack it has to be known that a pipeline
entered by a replicate action is not empty, and that an iterator without a packet waits
for its replicate action.

## Main definitions

* `PoolOk`: Every packet has one owner, and `packet_count` counts those with a buffer.
* `Solid`: Neither a pipeline nor a replicate action in it is empty.
* `Waiting`, `StackOk`: The frames below a running iterator, and a whole stack.

## Theorems

* `advance_ok`: A step of a thread keeps its stack and the owners of packets.
-/

namespace Dnt

/-- A pipeline with at least one action, whose replicate actions have at least
one branch each, all of them such pipelines. The configuration parser
accepts no others. -/
inductive Solid : List Action → Prop where
  | intro (pipe : List Action) (nonempty : pipe ≠ [])
      (branched : ∀ bs, Action.repl bs ∈ pipe → bs ≠ [])
      (solid : ∀ bs, Action.repl bs ∈ pipe → ∀ b ∈ bs, Solid b) : Solid pipe

variable {pipe : List Action} {hs : List Nat} {p : Nat} {isOam : Option Bool}
  {pool pool' : PacketPool}

open List

theorem Solid.nonempty (h : Solid pipe) : pipe ≠ [] := by
  cases h with
  | intro _ hne _ _ => exact hne

theorem Solid.branches (h : Solid pipe) (bs : List (List Action)) (hbs : Action.repl bs ∈ pipe) :
    bs ≠ [] ∧ ∀ b ∈ bs, Solid b := by
  cases h with
  | intro _ _ hne hall => exact ⟨hne bs hbs, hall bs hbs⟩

/-- Every packet has one owner, and `packet_count` counts those with a buffer. -/
structure PoolOk (pool : PacketPool) (holders : List Nat) : Prop where
  owned : pool.heap.Owned holders
  count : pool.packetCount = pool.heap.live.countP Prod.snd

theorem PoolOk.perm {hs' : List Nat} (h : PoolOk pool hs) (hp : hs.Perm hs') : PoolOk pool hs' :=
  ⟨h.owned.perm hp, h.count⟩

theorem poolOk_new (h : PoolOk pool hs) : PoolOk (newPacketFast pool) (pool.heap.next :: hs) := by
  unfold newPacketFast
  split_ifs
  · refine ⟨h.owned.alloc false, ?_⟩
    rw [h.count]
    exact (countP_cons_of_neg Bool.false_ne_true).symm
  · refine ⟨h.owned.alloc true, ?_⟩
    rw [h.count]
    exact (countP_cons_of_pos rfl).symm

theorem poolOk_use (h : PoolOk pool hs) (hp : p ∈ hs) : usePacket pool p = pool := by
  unfold usePacket
  rw [h.owned.use p hp]

theorem poolOk_copy (h : PoolOk pool hs) (hp : p ∈ hs) :
    PoolOk (copyPacket pool p) (pool.heap.next :: hs) := by
  unfold copyPacket
  rw [h.owned.use p hp]
  refine ⟨h.owned.alloc true, ?_⟩
  rw [h.count]
  exact (countP_cons_of_pos rfl).symm

theorem poolOk_delete (h : PoolOk pool (p :: hs)) : PoolOk (deletePacket pool p) hs := by
  rcases Ledger.live_free h.owned with ⟨owns, hlookup, hlive⟩
  have hcount := hlive.countP_eq Prod.snd
  unfold deletePacket ownsBuffer
  rw [hlookup]
  cases owns with
  | false =>
    rw [if_neg (by decide)]
    refine ⟨h.owned.free, ?_⟩
    rw [h.count, hcount, countP_cons_of_neg Bool.false_ne_true]
  | true =>
    rw [if_pos (by decide)]
    refine ⟨h.owned.free, ?_⟩
    rw [countP_cons_of_pos rfl] at hcount
    simp [h.count, hcount]

theorem extends_copyPacket (pool : PacketPool) (p : Nat) :
    pool.heap.Extends (copyPacket pool p).heap :=
  (Ledger.extends_use pool.heap p).trans (Ledger.extends_alloc _ true)

theorem extends_deletePacket (pool : PacketPool) (p : Nat) :
    pool.heap.Extends (deletePacket pool p).heap := by
  unfold deletePacket
  split_ifs <;> exact Ledger.extends_free pool.heap p

/-- The packets a frame owns. A replicate action gives its packet away with the
last branch. -/
def Frame.owned : Frame → List Nat
  | .receive p _ => [p]
  | .iterator pi => pi.packet.toList
  | .repl p _ list => if list.isEmpty = true then [] else [p]

/-- The packets that the frames of a stack own. -/
def stackOwned (stack : List Frame) : List Nat :=
  stack.flatMap Frame.owned

def heldOwned (held : List PipelineIterator) : List Nat :=
  held.flatMap fun pi => pi.packet.toList

/-- The frames below a running iterator: replicate actions, each on top of the
iterator whose packet it has taken. -/
inductive Waiting : List Frame → Prop where
  | nil : Waiting []
  | repl (p : Nat) (isOam : Option Bool) (list : List (List Action)) (pipe : List Action)
      (pos : Nat) (below : List Frame) (solid : ∀ b ∈ list, Solid b) (rest : Waiting below) :
      Waiting (.repl p isOam list :: .iterator ⟨none, pipe, pos⟩ :: below)

/-- Only the frame on top of a stack is at work, and the others wait. -/
inductive StackOk : List Frame → Prop where
  | receive (p : Nat) (stream : Option (List Action)) (solid : ∀ pipe ∈ stream, Solid pipe) :
      StackOk [.receive p stream]
  | running (p : Nat) (pipe : List Action) (pos : Nat) (below : List Frame) (solid : Solid pipe)
      (rest : Waiting below) : StackOk (.iterator ⟨some p, pipe, pos⟩ :: below)
  | waiting (stack : List Frame) (rest : Waiting stack) : StackOk stack

/-- An iterator on hold has its packet. -/
def HeldOk (pi : PipelineIterator) : Prop :=
  pi.packet.isSome = true ∧ Solid pi.pipe

variable {below stack : List Frame}

theorem HeldOk.exists_packet {pi : PipelineIterator} (h : HeldOk pi) : ∃ p, pi.packet = some p :=
  Option.isSome_iff_exists.mp h.1

/-- What a step of a thread keeps, for the packets of the other owners. -/
structure AdvanceOk (pool : PacketPool) (others : List Nat) (r : Advance) : Prop where
  owned : PoolOk r.pool (stackOwned r.stack ++ heldOwned r.held ++ r.queued ++ others)
  later : pool.heap.Extends r.pool.heap
  stack : StackOk r.stack
  held : ∀ pi ∈ r.held, HeldOk pi

section Steps

variable (pool : PacketPool) (others : List Nat)

theorem advanceOk_stack (hpool : PoolOk pool' (stackOwned stack ++ others))
    (hlater : pool.heap.Extends pool'.heap) (hstack : StackOk stack) :
    AdvanceOk pool others ⟨pool', stack, [], []⟩ := by
  refine ⟨?_, hlater, hstack, forall_mem_nil _⟩
  simp only [heldOwned, flatMap_nil, append_nil]
  exact hpool

theorem processReceived_ok {stream : Option (List Action)} (hsolid : ∀ pipe ∈ stream, Solid pipe)
    (hpool : PoolOk pool (p :: others)) :
    AdvanceOk pool others (processReceived pool p stream []) := by
  have hdrop : AdvanceOk pool others ⟨deletePacket pool p, [], [], []⟩ :=
    advanceOk_stack pool others (poolOk_delete hpool)
      (extends_deletePacket pool p) (.waiting [] .nil)
  cases stream with
  | none => exact hdrop
  | some pipe =>
    unfold processReceived
    dsimp only
    split_ifs
    · exact advanceOk_stack pool others hpool (Ledger.extends_refl _)
        (.running p pipe 0 [] (hsolid pipe rfl) .nil)
    · exact hdrop

theorem sendInternal_ok {holders : List Nat} (a : Action) (c : Conditions)
    (hpool : PoolOk pool holders) (hp : p ∈ holders) :
    PoolOk (sendInternal pool p a c).1 ((sendInternal pool p a c).2 ++ holders) ∧
      pool.heap.Extends (sendInternal pool p a c).1.heap := by
  have hsame : PoolOk pool ([] ++ holders) ∧ pool.heap.Extends pool.heap :=
    ⟨hpool, Ledger.extends_refl _⟩
  unfold sendInternal
  split
  · split_ifs
    · exact ⟨poolOk_copy hpool hp, extends_copyPacket pool p⟩
    · exact hsame
  · exact hsame

theorem runAction_ok (pos : Nat) (c : Conditions) {a : Action} (hsolid : Solid pipe)
    (hbelow : Waiting below) (hpool : PoolOk pool (p :: (stackOwned below ++ others))) :
    AdvanceOk pool others (runAction pool ⟨some p, pipe, pos⟩ p below c a) := by
  rcases sendInternal_ok pool a c hpool mem_cons_self with ⟨hsent, hlater⟩
  unfold runAction
  rw [poolOk_use hpool mem_cons_self]
  cases a.execute c with
  | acrContinue =>
    refine ⟨hsent.perm ?_, hlater, .running p pipe (pos + 1) below hsolid hbelow, forall_mem_nil _⟩
    simp only [stackOwned, heldOwned, List.flatMap_cons, flatMap_nil, Frame.owned,
      Option.toList_some, append_nil, cons_append]
    rw [append_assoc]
    refine perm_middle.trans (List.Perm.cons p ?_)
    exact perm_append_comm_assoc _ _ _
  | acrDone =>
    -- what was sent is a copy, so the packet itself can go
    have hfree : PoolOk (deletePacket (sendInternal pool p a c).1 p)
        ((sendInternal pool p a c).2 ++ (stackOwned below ++ others)) :=
      poolOk_delete (hsent.perm perm_middle)
    refine ⟨hfree.perm ?_, hlater.trans (extends_deletePacket _ p), .waiting below hbelow,
      forall_mem_nil _⟩
    simp only [heldOwned, flatMap_nil, append_nil, append_assoc]
    exact perm_append_comm_assoc _ _ _
  | acrHold =>
    refine ⟨hsent.perm ?_, hlater, .waiting below hbelow, ?_⟩
    · simp only [heldOwned, List.flatMap_cons, flatMap_nil, Option.toList_some,
        append_nil, append_assoc, singleton_append]
      refine perm_middle.trans ((List.Perm.cons p ?_).trans perm_middle.symm)
      exact perm_append_comm_assoc _ _ _
    · intro pi hpi
      rw [mem_singleton.mp hpi]
      exact ⟨rfl, hsolid⟩

theorem runIterator_ok (pos : Nat) (c : Conditions) (hsolid : Solid pipe) (hbelow : Waiting below)
    (hpool : PoolOk pool (p :: (stackOwned below ++ others))) :
    AdvanceOk pool others (runIterator pool ⟨some p, pipe, pos⟩ below c) := by
  unfold runIterator
  dsimp only
  cases ha : pipe[pos]? with
  | none =>
    -- the end of the pipeline
    exact advanceOk_stack pool others (poolOk_delete hpool)
      (extends_deletePacket pool p) (.waiting below hbelow)
  | some a =>
    have hmem : a ∈ pipe := mem_of_getElem? ha
    cases a with
    | repl bs =>
      -- the packet moves from the iterator to the replicate action
      rcases hsolid.branches bs hmem with ⟨hne, hbs⟩
      dsimp only
      rw [poolOk_use hpool mem_cons_self]
      refine advanceOk_stack pool others ?_ (Ledger.extends_refl _)
        (.waiting _ (.repl p none bs pipe pos below hbs hbelow))
      simp only [stackOwned, List.flatMap_cons, Frame.owned, List.isEmpty_iff, if_neg hne,
        Option.toList_none, nil_append, cons_append]
      exact hpool
    | simple type | delay offload | send internal =>
      exact runAction_ok pool others pos c hsolid hbelow hpool

theorem pipelineProcess_ok {q : Nat} {branch : List Action} {rest : List (List Action)}
    (pipe : List Action) (pos : Nat) (hbranch : Solid branch) (hrest : ∀ b ∈ rest, Solid b)
    (hbelow : Waiting below) (hlater : pool.heap.Extends pool'.heap)
    (hpool : PoolOk pool' (q :: (stackOwned (.repl p isOam rest :: below) ++ others))) :
    AdvanceOk pool others (pipelineProcess pool' branch q
      (.repl p isOam rest :: .iterator ⟨none, pipe, pos⟩ :: below)) := by
  unfold pipelineProcess
  rw [if_neg fun hempty => hbranch.nonempty (isEmpty_iff.mp hempty)]
  refine advanceOk_stack pool others ?_ hlater
    (.running q branch 0 _ hbranch (.repl p isOam rest pipe pos below hrest hbelow))
  exact hpool

theorem runReplicate_ok {list : List (List Action)} (pipe : List Action) (pos : Nat)
    (c : Conditions) (hsolid : ∀ b ∈ list, Solid b) (hbelow : Waiting below)
    (hpool : PoolOk pool (stackOwned (.repl p isOam list :: below) ++ others)) :
    AdvanceOk pool others
      (runReplicate pool p isOam list (.iterator ⟨none, pipe, pos⟩ :: below) c) := by
  cases list with
  | nil =>
    -- all branches are served, and the iterator has no packet to free
    exact advanceOk_stack pool others hpool (Ledger.extends_refl _) (.waiting below hbelow)
  | cons branch rest =>
    rcases forall_mem_cons.mp hsolid with ⟨hbranch, hrest⟩
    have hp : PoolOk pool (p :: (stackOwned below ++ others)) := hpool
    unfold runReplicate
    dsimp only
    -- what is known of the packet does not matter for who owns it
    generalize (if c.mask = true then some (isOam.getD c.oam) else isOam) = known
    rw [poolOk_use hp mem_cons_self, ite_self]
    have hnext := StackOk.waiting _ (.repl p known rest pipe pos below hrest hbelow)
    by_cases hlast : rest.isEmpty = true
    · -- the last branch gets the packet itself
      have hgone : stackOwned (.repl p known rest :: below) = stackOwned below := by
        simp only [stackOwned, List.flatMap_cons, Frame.owned, if_pos hlast, nil_append]
      rw [if_pos hlast, if_pos hlast]
      split_ifs
      · refine advanceOk_stack pool others ?_ (extends_deletePacket pool p) hnext
        have hfree := poolOk_delete hp
        rw [← hgone] at hfree
        exact hfree
      · refine pipelineProcess_ok pool others pipe pos hbranch
          hrest hbelow (Ledger.extends_refl _) ?_
        rw [hgone]
        exact hp
    · -- the others get a copy
      have hkept : stackOwned (.repl p known rest :: below) = p :: stackOwned below := by
        simp only [stackOwned, List.flatMap_cons, Frame.owned, if_neg hlast, singleton_append]
      rw [if_neg hlast, if_neg hlast]
      split_ifs
      · refine advanceOk_stack pool others ?_ (Ledger.extends_refl _) hnext
        rw [← cons_append, ← hkept] at hp
        exact hp
      · refine pipelineProcess_ok pool others pipe pos hbranch hrest hbelow
          (extends_copyPacket pool p) ?_
        rw [hkept]
        exact poolOk_copy hp mem_cons_self

theorem advance_ok (c : Conditions) (hstack : StackOk stack)
    (hpool : PoolOk pool (stackOwned stack ++ others)) :
    AdvanceOk pool others (advance pool c stack) := by
  cases hstack with
  | receive p stream hsolid => exact processReceived_ok pool others hsolid hpool
  | running p pipe pos below hsolid hbelow =>
    exact runIterator_ok pool others pos c hsolid hbelow hpool
  | waiting _ hwaiting =>
    cases hwaiting with
    | nil =>
      exact advanceOk_stack pool others hpool (Ledger.extends_refl _) (.waiting [] .nil)
    | repl p isOam list pipe pos below hsolid hbelow =>
      exact runReplicate_ok pool others pipe pos c hsolid hbelow hpool

end Steps

end Dnt
