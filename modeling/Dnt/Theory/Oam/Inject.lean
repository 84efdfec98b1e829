import Dnt.Core.OamSend
import Dnt.Theory.Oam.RoundTrip
import Dnt.Theory.Pipeline.Conservation

/-!
# Packets of Maintenance Points on the Data Plane

A packet that was made for a request has to end up in a pipeline or be deleted. It
is forgotten if the message cannot be written (mask signals delete the packet then),
if the point has no pipeline, or if its place is behind the end of the pipeline.

## Main definitions

* `PacketKept`: The packet of a request is with a pipeline, or was deleted.
* `CarefulInject`: The message of a request can be written, and there is a place for it.
* `DataPlane.withForgotten`: The data plane with the forgotten packets in its queue. This
  keeps the invariant of the data plane.

## Theorems

* `injectRun_iff`: Nothing is forgotten in a run just if its requests are careful.
-/

namespace Dnt

open Mealy

open List

section

variable (lib : JsonLibrary) (r : RequestCall)

def RequestCall.Writable (js : JsonObject) : Prop :=
  (lib.jsonSerialize (.object (r.mp.payloadMembers js))).isSome = true

/-- The point has a pipeline, and is inside of it. -/
def RequestCall.Placed : Prop :=
  ∃ point rest, r.injections = point :: rest ∧ point.pipePosIdx < point.pipe.length

/-- The message of a request can be written and there is a place for it. A mask signal
only needs a place if its message can be written. -/
def CarefulInject : InjectInput → Prop
  | .plane _ => True
  | .request r =>
    r.Writable lib (requestMessage r.mp r.req r.opts r.packed.2) ∧ r.Placed
  | .maskSignal r =>
    r.Writable lib (hashmapInsert r.packed.2 "target" (.string "nexthop")) → r.Placed

/-- The packet of a request is with a pipeline that runs, or was deleted. -/
def PacketKept (s : DataPlane) : InjectInput → Prop
  | .plane _ => True
  | input =>
    s.pool.heap.next ∈ (injectStep lib s input).1.threads.flatMap stackOwned ∨
      s.pool.heap.next ∈ (injectStep lib s input).1.pool.heap.freed

/-- Whenever the same packets are with somebody as at an earlier moment, `packet_count` is
the same. -/
def CountKept (s : DataPlane) (inputs : List InjectInput) : Prop :=
  ∀ before more, inputs = before ++ more →
    (owners (final (injectStep lib) s inputs)).Perm
        (owners (final (injectStep lib) s before)) →
      (final (injectStep lib) s inputs).pool.packetCount =
        (final (injectStep lib) s before).pool.packetCount

def SolidInject : InjectInput → Prop
  | .plane input => SolidInput input
  | .request r => ∀ point ∈ r.injections, Solid point.pipe
  | .maskSignal r => ∀ point ∈ r.injections, Solid point.pipe

/-! ## What becomes of a packet -/

theorem isSome_mpPackMessagePayload_iff (js : JsonObject) :
    (mpPackMessagePayload r.pseudoAddr lib r.mp r.packed.1.packet js).isSome = true ↔
      r.Writable lib js := by
  have hlinear : packetIsLinear r.packed.1.packet = true :=
    (newlyPacked_requestPacket r.env r.mp r.buf r.req).readable.linear
  rw [mpPackMessagePayload_eq, hlinear, if_neg (by decide), Option.isSome_map]
  rfl

theorem mpInjectPacket_cases (pool : PacketPool) (p : Nat) :
    (r.Placed ∧ ∃ point ∈ r.injections, mpInjectPacket pool r.injections p =
      ⟨pool, [.iterator ⟨some p, point.pipe, point.pipePosIdx⟩], [], []⟩) ∨
    (¬ r.Placed ∧ mpInjectPacket pool r.injections p = ⟨pool, [], [], []⟩) := by
  unfold mpInjectPacket RequestCall.Placed
  cases hinj : r.injections with
  | nil => exact .inr ⟨fun ⟨point, rest, h, _⟩ => absurd h (cons_ne_nil _ _).symm, rfl⟩
  | cons point rest =>
    simp only [pipelineProcessAt]
    by_cases hidx : point.pipePosIdx ≥ point.pipe.length
    · rw [if_pos hidx]
      refine .inr ⟨?_, rfl⟩
      rintro ⟨point', rest', h, hlt⟩
      rw [List.cons.injEq] at h
      rw [← h.1] at hlt
      omega
    · rw [if_neg hidx]
      exact .inl ⟨⟨point, rest, rfl, Nat.lt_of_not_le hidx⟩, point, mem_cons_self, rfl⟩

/-- The fate of a new packet: it is handed to a pipeline, deleted or forgotten. -/
inductive Fate (pool : PacketPool) (next : Advance) : Prop where
  | handed (point : InjectionPoint) (mem : point ∈ r.injections)
      (eq : next = ⟨newPacketFast pool,
        [.iterator ⟨some pool.heap.next, point.pipe, point.pipePosIdx⟩], [], []⟩)
  | deleted (eq : next = ⟨deletePacket (newPacketFast pool) pool.heap.next, [], [], []⟩)

theorem sendRequest_cases (pool : PacketPool) :
    (CarefulInject lib (.request r) ∧ Fate r pool (sendRequest lib r pool)) ∨
      (¬ CarefulInject lib (.request r) ∧
        sendRequest lib r pool = ⟨newPacketFast pool, [], [], []⟩) := by
  have hsome := isSome_mpPackMessagePayload_iff lib r
    (requestMessage r.mp r.req r.opts r.packed.2)
  simp only [sendRequest, CarefulInject]
  cases hpack : mpPackMessagePayload r.pseudoAddr lib r.mp r.packed.1.packet
      (requestMessage r.mp r.req r.opts r.packed.2) with
  | none =>
    rw [hpack] at hsome
    exact .inr ⟨fun h => absurd (hsome.mpr h.1) (by decide), rfl⟩
  | some q =>
    rw [hpack] at hsome
    rcases mpInjectPacket_cases r (newPacketFast pool) pool.heap.next with
      ⟨hplaced, point, hmem, heq⟩ | ⟨hplaced, heq⟩
    · exact .inl ⟨⟨hsome.mp rfl, hplaced⟩, .handed point hmem heq⟩
    · exact .inr ⟨fun h => hplaced h.2, heq⟩

theorem sendMaskSignal_cases (pool : PacketPool) :
    (CarefulInject lib (.maskSignal r) ∧ Fate r pool (sendMaskSignal lib r pool)) ∨
      (¬ CarefulInject lib (.maskSignal r) ∧
        sendMaskSignal lib r pool = ⟨newPacketFast pool, [], [], []⟩) := by
  have hsome := isSome_mpPackMessagePayload_iff lib r
    (hashmapInsert r.packed.2 "target" (.string "nexthop"))
  simp only [sendMaskSignal, CarefulInject]
  cases hpack : mpPackMessagePayload r.pseudoAddr lib r.mp r.packed.1.packet
      (hashmapInsert r.packed.2 "target" (.string "nexthop")) with
  | none =>
    rw [hpack] at hsome
    exact .inl ⟨fun h => absurd (hsome.mpr h) (by decide), .deleted rfl⟩
  | some q =>
    rw [hpack] at hsome
    rcases mpInjectPacket_cases r (newPacketFast pool) pool.heap.next with
      ⟨hplaced, point, hmem, heq⟩ | ⟨hplaced, heq⟩
    · exact .inl ⟨fun _ => hplaced, .handed point hmem heq⟩
    · exact .inr ⟨fun h => hplaced (h (hsome.mp rfl)), heq⟩

end

/-! ## Forgotten packets -/

/-- The data plane with the forgotten packets in its queue. -/
def DataPlane.withForgotten (s : DataPlane) (forgotten : List Nat) : DataPlane :=
  { s with fifo := s.fifo ++ forgotten }

theorem owners_withForgotten (s : DataPlane) (forgotten : List Nat) :
    owners (s.withForgotten forgotten) = owners s ++ forgotten := by
  simp [owners, DataPlane.withForgotten]

theorem withForgotten_nil (s : DataPlane) : s.withForgotten [] = s := by
  simp [DataPlane.withForgotten]

section Frame

variable {lib : JsonLibrary} {s : DataPlane} {forgotten : List Nat}

theorem next_not_mem (hok : PlaneOk (s.withForgotten forgotten)) :
    s.pool.heap.next ∉ owners s ∧ s.pool.heap.next ∉ s.pool.heap.freed := by
  have howned := hok.pool.owned
  rw [owners_withForgotten] at howned
  constructor
  · intro hmem
    have hid := howned.holders.subset (mem_append_left forgotten hmem)
    exact absurd (howned.lt_next _ hid) (Nat.lt_irrefl _)
  · intro hmem
    have hrange := howned.accounts.subset (mem_append_left _ hmem)
    exact absurd (mem_range.mp hrange) (Nat.lt_irrefl _)

theorem planeStep_frame {input : PlaneInput} (hok : PlaneOk (s.withForgotten forgotten))
    (hsolid : SolidInput input) : PlaneOk ((planeStep s input).1.withForgotten forgotten) ∧
      s.pool.heap.Extends (planeStep s input).1.pool.heap := by
  have hstep := planeStep_ok hok hsolid
  cases input with
  | receive stream => exact hstep
  | receiveQueued k stream =>
    -- a packet that can be taken from the queue is not a forgotten one
    by_cases hk : k < s.fifo.length
    · have hget : (s.fifo ++ forgotten)[k]? = s.fifo[k]? := getElem?_append_left hk
      have herase : (s.fifo ++ forgotten).eraseIdx k = s.fifo.eraseIdx k ++ forgotten :=
        eraseIdx_append_of_lt_length hk forgotten
      simp only [planeStep, DataPlane.withForgotten, hget, getElem?_eq_getElem hk, herase]
        at hstep ⊢
      exact hstep
    · have hnone : s.fifo[k]? = none := getElem?_eq_none (Nat.le_of_not_lt hk)
      simp only [planeStep, hnone]
      exact ⟨hok, Ledger.extends_refl _⟩
  | step k c =>
    cases hstack : s.threads[k]? with
    | none =>
      simp only [planeStep, hstack]
      exact ⟨hok, Ledger.extends_refl _⟩
    | some stack =>
      simp only [planeStep, DataPlane.withForgotten, hstack] at hstep ⊢
      rw [append_assoc]
      exact hstep
  | resume k | cancel k =>
    cases hpi : s.held[k]? with
    | none =>
      simp only [planeStep, hpi]
      exact ⟨hok, Ledger.extends_refl _⟩
    | some pi =>
      simp only [planeStep, DataPlane.withForgotten, hpi] at hstep ⊢
      exact hstep

theorem extends_newPacketFast (pool : PacketPool) :
    pool.heap.Extends (newPacketFast pool).heap := by
  unfold newPacketFast
  split_ifs <;> exact Ledger.extends_alloc _ _

theorem mem_freed_deletePacket {pool : PacketPool} {hs : List Nat} {p : Nat}
    (h : PoolOk pool (p :: hs)) : p ∈ (deletePacket pool p).heap.freed := by
  have hid : p ∈ pool.heap.ids := h.owned.holders.subset mem_cons_self
  unfold deletePacket
  split_ifs <;> simp [Ledger.free, if_pos hid]

theorem launch_kept {r : RequestCall} (hsolid : ∀ point ∈ r.injections, Solid point.pipe)
    (hok : PlaneOk (s.withForgotten forgotten)) {next : Advance} (hfate : Fate r s.pool next) :
    PlaneOk ((s.launch next).withForgotten forgotten) ∧
      s.pool.heap.Extends (s.launch next).pool.heap ∧
      (s.pool.heap.next ∈ (s.launch next).threads.flatMap stackOwned ∨
        s.pool.heap.next ∈ (s.launch next).pool.heap.freed) := by
  have hnew := poolOk_new hok.pool
  cases hfate with
  | handed point hmem heq =>
    rw [heq]
    refine ⟨⟨hnew, ?_, hok.held⟩, extends_newPacketFast s.pool, .inl mem_cons_self⟩
    refine forall_mem_cons.mpr ⟨⟨?_, cons_ne_nil _ _⟩, hok.threads⟩
    exact .running _ point.pipe point.pipePosIdx [] (hsolid point hmem) .nil
  | deleted heq =>
    rw [heq]
    refine ⟨⟨poolOk_delete hnew, hok.threads, hok.held⟩, ?_, .inr ?_⟩
    · exact (extends_newPacketFast s.pool).trans (extends_deletePacket _ _)
    · exact mem_freed_deletePacket hnew

theorem launch_forgotten (hok : PlaneOk (s.withForgotten forgotten)) :
    PlaneOk ((s.launch ⟨newPacketFast s.pool, [], [], []⟩).withForgotten
        (forgotten ++ [s.pool.heap.next])) ∧ ¬ (s.pool.heap.next ∈
          (s.launch ⟨newPacketFast s.pool, [], [], []⟩).threads.flatMap stackOwned ∨
        s.pool.heap.next ∈ (s.launch ⟨newPacketFast s.pool, [], [], []⟩).pool.heap.freed) := by
  obtain ⟨howners, hfreed⟩ := next_not_mem hok
  have hnew := poolOk_new hok.pool
  refine ⟨⟨hnew.perm ?_, hok.threads, hok.held⟩, ?_⟩
  · rw [owners_withForgotten, owners_withForgotten, ← append_assoc]
    exact (perm_append_singleton _ _).symm
  · rintro (hmem | hmem)
    · exact howners (mem_append_left _ hmem)
    · -- making a packet frees none
      have hsame : (newPacketFast s.pool).heap.freed = s.pool.heap.freed := by
        unfold newPacketFast
        split_ifs <;> rfl
      exact hfreed (hsame ▸ hmem)

/-- One step: what it forgets, and that this is the packet of a request that was not
careful. -/
theorem injectStep_ok (input : InjectInput) (hsolid : SolidInject input)
    (hok : PlaneOk (s.withForgotten forgotten)) :
    (CarefulInject lib input ∧ PlaneOk ((injectStep lib s input).1.withForgotten forgotten) ∧
      s.pool.heap.Extends (injectStep lib s input).1.pool.heap ∧ PacketKept lib s input) ∨
    (¬ CarefulInject lib input ∧ (∃ more, PlaneOk
        ((injectStep lib s input).1.withForgotten more)) ∧ ¬ PacketKept lib s input) := by
  cases input with
  | plane input =>
    obtain ⟨hnext, hlater⟩ := planeStep_frame hok hsolid
    exact .inl ⟨trivial, hnext, hlater, trivial⟩
  | request r =>
    rcases sendRequest_cases lib r s.pool with ⟨hcareful, hfate⟩ | ⟨hcareful, heq⟩
    · exact .inl ⟨hcareful, launch_kept hsolid hok hfate⟩
    · have hforgotten := launch_forgotten hok
      rw [← heq] at hforgotten
      exact .inr ⟨hcareful, ⟨_, hforgotten.1⟩, hforgotten.2⟩
  | maskSignal r =>
    rcases sendMaskSignal_cases lib r s.pool with ⟨hcareful, hfate⟩ | ⟨hcareful, heq⟩
    · exact .inl ⟨hcareful, launch_kept hsolid hok hfate⟩
    · have hforgotten := launch_forgotten hok
      rw [← heq] at hforgotten
      exact .inr ⟨hcareful, ⟨_, hforgotten.1⟩, hforgotten.2⟩

end Frame

/-! ## Runs -/

theorem injectRun_ok {lib : JsonLibrary} (s : DataPlane) {inputs : List InjectInput}
    (hok : PlaneOk s) (hsolid : ∀ input ∈ inputs, SolidInject input)
    (hcareful : ∀ input ∈ inputs, CarefulInject lib input) :
    PlaneOk (final (injectStep lib) s inputs) ∧
      s.pool.heap.Extends (final (injectStep lib) s inputs).pool.heap := by
  induction inputs generalizing s with
  | nil => exact ⟨hok, Ledger.extends_refl _⟩
  | cons input inputs ih =>
    obtain ⟨hinput, hrest⟩ := forall_mem_cons.mp hsolid
    obtain ⟨hcare, hcares⟩ := forall_mem_cons.mp hcareful
    rw [← withForgotten_nil s] at hok
    rcases @injectStep_ok lib s [] input hinput hok with ⟨-, hnext, hlater, -⟩ | ⟨hnot, -⟩
    · rw [withForgotten_nil] at hnext
      obtain ⟨hfinal, hlater'⟩ := ih _ hnext hrest hcares
      exact ⟨hfinal, hlater.trans hlater'⟩
    · exact absurd hcare hnot

/-- In every run of the data plane and of requests on solid pipelines: every packet of a
request goes to a pipeline or is deleted, and `packet_count` only depends on the
packets that somebody has, exactly if all requests are careful. -/
theorem injectRun_iff (lib : JsonLibrary) (inputs : List InjectInput)
    (hsolid : ∀ input ∈ inputs, SolidInject input) :
    (EveryStep (injectStep lib) (PacketKept lib) DataPlane.init inputs ∧
      CountKept lib DataPlane.init inputs) ↔ ∀ input ∈ inputs, CarefulInject lib input := by
  have hstep : EveryStep (injectStep lib) (PacketKept lib) DataPlane.init inputs ↔
      ∀ input ∈ inputs, CarefulInject lib input := by
    rw [← @everyStep_iff_forall_mem _ _ _ (injectStep lib) (CarefulInject lib) DataPlane.init]
    refine everyStep_iff_of_possible
      (fun s => ∃ forgotten, PlaneOk (s.withForgotten forgotten))
      (fun _ input => SolidInject input) _ _ ?_ ?_ ?_ inputs
      ((everyStep_iff_forall_mem _ _ _).mpr hsolid)
    · rintro s input ⟨forgotten, hok⟩ hinput
      rcases @injectStep_ok lib s forgotten input hinput hok with ⟨-, hnext, -⟩ | ⟨-, hnext, -⟩
      · exact ⟨forgotten, hnext⟩
      · exact hnext
    · rintro s input ⟨forgotten, hok⟩ hinput
      rcases @injectStep_ok lib s forgotten input hinput hok with
        ⟨hcareful, -, -, hkept⟩ | ⟨hcareful, -, hkept⟩
      · exact iff_of_true hkept hcareful
      · exact iff_of_false hkept hcareful
    · exact ⟨[], (withForgotten_nil _).symm ▸ init_ok⟩
  constructor
  · exact fun h => hstep.mp h.1
  · intro hcareful
    refine ⟨hstep.mpr hcareful, ?_⟩
    rintro before more rfl hsame
    rw [forall_mem_append] at hsolid hcareful
    obtain ⟨hok, -⟩ := injectRun_ok _ init_ok hsolid.1 hcareful.1
    obtain ⟨hok', hlater⟩ := injectRun_ok _ hok hsolid.2 hcareful.2
    rw [final_append] at hsame ⊢
    have hlive := Ledger.live_perm_of_extends hok.pool.owned hok'.pool.owned hlater hsame
    rw [hok'.pool.count, hok.pool.count, hlive.countP_eq]

/-! ## Pings at a point with a pipeline, and without -/

def pseudowireText : List UInt8 :=
  asciiOctets ("\x7b\"code\":\"request\",\"return\":\x7b\x7d,\"send_ns\":0,\"send_s\":0," ++
    "\"stream\":\"stream\",\"target\":\"stop\",\"type\":\"ping\"\x7d")

/-- A library that writes the ping below, and nothing else. -/
def pseudowireLibrary : JsonLibrary where
  jsonParse _ := none
  jsonSerialize
    | .object [("type", .string "ping"), ("code", .string "request"), ("send_s", .number s),
        ("send_ns", .number ns), ("stream", .string "stream"), ("target", .string "stop"),
        ("return", .object [])] => if s = 0 ∧ ns = 0 then some pseudowireText else none
    | _ => none
  jsonSerialize_ne_nil v text h := by
    split at h
    · split_ifs at h
      cases h
      decide
    · cases h

/-- A ping of a point in a pseudowire, with the given injection points. -/
def pseudowirePing (injections : List InjectionPoint) : RequestCall where
  pseudoAddr := 0
  env := pingContext
  mp := pingPoint [.mpls, .dcw] (by decide)
  injections := injections
  buf := fun _ => 0
  req := pingRequest
  opts := ⟨"stop", .object [], false, false, false, "", .null⟩

/-- The point is the first action of a pipeline that sends. -/
def sendPoint : InjectionPoint :=
  ⟨[.simple .oaminject, .send false], 0⟩

def pingRun : List InjectInput :=
  [.request (pseudowirePing [sendPoint]), .plane (.step 0 ordinary), .plane (.step 0 ordinary),
    .plane (.step 0 ordinary)]

theorem injectRun_iff_pingRun :
    (∀ input ∈ pingRun, SolidInject input) ∧
      EveryStep (injectStep pseudowireLibrary) (PacketKept pseudowireLibrary) DataPlane.init
        pingRun ∧
      CountKept pseudowireLibrary DataPlane.init pingRun := by
  have hsolid : ∀ input ∈ pingRun, SolidInject input := by
    have hpipe : Solid sendPoint.pipe := by
      refine .intro _ (cons_ne_nil _ _) ?_ ?_
      all_goals
        intro bs hbs
        simp only [sendPoint, mem_cons, reduceCtorEq, not_mem_nil, or_self] at hbs
    simp only [pingRun, forall_mem_cons, SolidInject, SolidInput, pseudowirePing,
      not_mem_nil, false_implies, implies_true, and_true]
    exact hpipe
  have hcareful : ∀ input ∈ pingRun, CarefulInject pseudowireLibrary input := by
    simp only [pingRun, forall_mem_cons, CarefulInject, not_mem_nil, false_implies,
      implies_true, and_true]
    exact ⟨rfl, sendPoint, [], rfl, by decide⟩
  exact ⟨hsolid, (injectRun_iff pseudowireLibrary pingRun hsolid).mpr hcareful⟩

/-- Two pings of a periodic request whose point has lost its pipeline: two packets are
counted, and nobody has them. -/
theorem lostPipeline_forgets :
    let run : List InjectInput :=
      [.request (pseudowirePing []), .request (pseudowirePing [])]
    let s := final (injectStep pseudowireLibrary) DataPlane.init run
    ¬ EveryStep (injectStep pseudowireLibrary) (PacketKept pseudowireLibrary) DataPlane.init run ∧
      owners s = [] ∧ s.pool.heap.freed = [] ∧ s.pool.packetCount = 2 := by
  have hsend (pool : PacketPool) : sendRequest pseudowireLibrary (pseudowirePing []) pool =
      ⟨newPacketFast pool, [], [], []⟩ := by
    rcases sendRequest_cases pseudowireLibrary (pseudowirePing []) pool with
      ⟨⟨-, hplaced⟩, -⟩ | ⟨-, h⟩
    · obtain ⟨point, rest, hnil, -⟩ := hplaced
      exact absurd hnil (cons_ne_nil _ _).symm
    · exact h
  refine ⟨?_, ?_⟩
  · rintro ⟨hfirst, -⟩
    simp only [PacketKept, injectStep, hsend] at hfirst
    revert hfirst
    decide
  · simp only [final_cons, final_nil, injectStep, hsend]
    decide

end Dnt
