import Dnt.Theory.Packet.Identify

/-!
# Classifying Packets

The first stream of the configuration line that selects a packet gets it. Between
the line and the packet stand three loops: over the names of the line, over the
streams that are added to the parser, and over those that are tried.

## Main definitions

* `ConfiguredAs`: The stream the parser has for a name, whatever its counters are.
* `Takes`, `Classification`: The stream of a name selects a packet, and is the first to.

## Theorems

* `parsetreeIdentify_first_stream`: Every packet of a run goes to the first stream that
  selects it, and the counters add up to the number of packets.
-/

namespace Dnt

open Mealy

open List

variable {α π : Type}
variable {p : Packet}

section Statement

variable (streams : String → Option (ConfStream α)) (assemble : String → α → Option π)

/-- The parser's stream for a name of the configuration line. -/
def ConfiguredAs (name : String) (s : Stream π) : Prop :=
  ∃ c, streams name = some c ∧ s.headers = c.headers ∧ s.pipeName = name ∧
    assemble name c.actions = some s.pipe

/-- The stream with this name selects the packet. -/
def Takes (p : Packet) (name : String) : Prop :=
  ∃ c, streams name = some c ∧ Selects p c.headers

/-- The outcome of classifying `p`, when the streams are written in the order of
`names`: the first stream that takes it, read as that stream's headers, or none. -/
def Classification (names : List String) (p : Packet) : Option (Stream π) × Packet → Prop
  | (some s, p') => ∃ before after c, names = before ++ s.pipeName :: after ∧
      (∀ name ∈ before, ¬ Takes streams p name) ∧
      streams s.pipeName = some c ∧ Selects p c.headers ∧
      s.headers = c.headers ∧ assemble s.pipeName c.actions = some s.pipe ∧
      p' = classified p c.headers
  | (none, p') => (∀ name ∈ names, ¬ Takes streams p name) ∧ p' = p

end Statement

def packetCount (pt : ParseTree π) : Nat :=
  (pt.streams.map Stream.matchPackets).sum + pt.nomatchPackets

section Configuration

variable {streams : String → Option (ConfStream α)} {assemble : String → α → Option π}

theorem foldlM_ifaceStreamTokenCb {names : List String} (list : List (ConfStreamEntry α))
    {list' : List (ConfStreamEntry α)}
    (h : names.foldlM (ifaceStreamTokenCb streams) list = .ok list') :
    ∃ es : List (ConfStreamEntry α), list' = es.reverse ++ list ∧
      es.map ConfStreamEntry.streamName = names ∧
      ∀ e ∈ es, streams e.streamName = some e.stream := by
  induction names generalizing list with
  | nil =>
    have hlist : list = list' := by
      rw [foldlM_nil] at h
      exact Except.ok.inj h
    refine ⟨[], ?_, rfl, ?_⟩
    · rw [reverse_nil, nil_append, hlist]
    · intro e he
      exact absurd he not_mem_nil
  | cons name names ih =>
    -- a name that is no stream makes the line fail
    rw [foldlM_cons] at h
    cases hname : streams name with
    | none =>
      simp only [ifaceStreamTokenCb, hname] at h
      cases h
    | some c =>
      simp only [ifaceStreamTokenCb, hname] at h
      rcases ih (⟨c, name⟩ :: list) h with ⟨es, hes, hnames, hall⟩
      refine ⟨⟨c, name⟩ :: es, ?_, ?_, ?_⟩
      · rw [hes, reverse_cons, append_assoc, singleton_append]
      · rw [map_cons, hnames]
      · intro e he
        rcases mem_cons.mp he with rfl | he
        · exact hname
        · exact hall e he

theorem ifaceStreamCb_names {isIface : String → Bool} {key value : List Char} {ifname : String}
    {entries : List (ConfStreamEntry α)}
    (h : ifaceStreamCb isIface streams key value = .ok (some (ifname, entries))) :
    entries.map ConfStreamEntry.streamName = words value ∧
      ∀ e ∈ entries, streams e.streamName = some e.stream := by
  unfold ifaceStreamCb foreachTokens at h
  dsimp only at h
  -- every way to return but the last one has another result
  split at h
  · cases h
  · split_ifs at h
    split at h
    · cases h
    · rename_i list hlist
      split at h
      · cases h
      · rcases foldlM_ifaceStreamTokenCb [] hlist with ⟨es, hes, hnames, hall⟩
        have hent : list.reverse = entries := by
          injection h with h
          injection h with h
          injection h
        rw [hes, append_nil, reverse_reverse] at hent
        rw [← hent]
        exact ⟨hnames, hall⟩

theorem addstreamCb_configured {entries : List (ConfStreamEntry α)} (pt : ParseTree π)
    {pt' : ParseTree π} (hall : ∀ e ∈ entries, streams e.streamName = some e.stream)
    (h : addstreamCb assemble pt entries = .ok pt') : ∃ ss, pt'.streams = pt.streams ++ ss ∧
      List.Forall₂ (ConfiguredAs streams assemble) (entries.map ConfStreamEntry.streamName) ss ∧
      packetCount pt' = packetCount pt := by
  induction entries generalizing pt with
  | nil =>
    have hpt : pt = pt' := Except.ok.inj h
    refine ⟨[], ?_, List.Forall₂.nil, ?_⟩
    · rw [append_nil, hpt]
    · rw [hpt]
  | cons e es ih =>
    unfold addstreamCb parsetreeAddStream at h
    split at h
    · cases h
    · rename_i pipe hpipe
      split_ifs at h
      have hrest : ∀ e ∈ es, streams e.streamName = some e.stream :=
        fun e' he' => hall e' (mem_cons_of_mem e he')
      rcases ih _ hrest h with ⟨ss, hss, hconf, hcount⟩
      refine ⟨⟨e.stream.headers, e.streamName, pipe, 0, 0⟩ :: ss, ?_, ?_, ?_⟩
      · rw [hss, append_assoc, singleton_append]
      · rw [map_cons]
        exact .cons ⟨e.stream, hall e mem_cons_self, rfl, rfl, hpipe⟩ hconf
      · rw [hcount]
        simp [packetCount]

end Configuration

section Run

variable (streams : String → Option (ConfStream α)) (assemble : String → α → Option π)

theorem classification_cons {name : String} {names : List String} {out : Option (Stream π) × Packet}
    (hname : ¬ Takes streams p name) (hout : Classification streams assemble names p out) :
    Classification streams assemble (name :: names) p out := by
  rcases out with ⟨_ | s, p'⟩
  · exact ⟨forall_mem_cons.mpr ⟨hname, hout.1⟩, hout.2⟩
  · rcases hout with ⟨before, after, c, hnames, hbefore, hrest⟩
    refine ⟨name :: before, after, c, ?_, forall_mem_cons.mpr ⟨hname, hbefore⟩, hrest⟩
    rw [hnames, cons_append]

theorem identifyStreams_classification (hp : Received p) {names : List String}
    {ss : List (Stream π)} (hconf : List.Forall₂ (ConfiguredAs streams assemble) names ss) :
    Classification streams assemble names p ((identifyStreams ss p).1, (identifyStreams ss p).2.2) ∧
      List.Forall₂ (ConfiguredAs streams assemble) names (identifyStreams ss p).2.1 ∧
      ((identifyStreams ss p).2.1.map Stream.matchPackets).sum =
        (ss.map Stream.matchPackets).sum + (if (identifyStreams ss p).1.isSome then 1 else 0) := by
  induction hconf with
  | nil =>
    refine ⟨⟨?_, rfl⟩, List.Forall₂.nil, rfl⟩
    intro name hname
    exact absurd hname not_mem_nil
  | @cons name s names ss hs hss ih =>
    rcases hs with ⟨c, hc, hheaders, hpipeName, hpipe⟩
    have hzero : totalLength [] = 0 := rfl
    -- the loop over the headers starts with none of them read
    have hempty : laidOut p [] = p := by
      rcases p with ⟨buf, start, len, scratchLen, headers⟩
      have hnil := hp.headers
      simp only at hnil
      simp only [laidOut, layoutFrom, hnil]
    by_cases hsel : Selects p c.headers
    · -- this stream takes the packet, and the loop ends here
      have htried := identifyStream_selects p hp [] c.indexed hsel
      rw [hzero, hempty, nil_append] at htried
      have hpayload := packetIdentifyHeader_payload hp hsel.1
      simp only [identifyStreams, hheaders, htried, if_true, hpayload]
      refine ⟨⟨[], names, c, ?_, ?_, ?_, hsel, rfl, ?_, rfl⟩,
        .cons ⟨c, hc, rfl, hpipeName, hpipe⟩ hss, ?_⟩
      · rw [hpipeName, nil_append]
      · intro name' hname'
        exact absurd hname' not_mem_nil
      · rw [hpipeName]
        exact hc
      · rw [hpipeName]
        exact hpipe
      · simp only [map_cons, sum_cons, Option.isSome_some, if_true]
        omega
    · -- it does not, and the packet is as before
      have hempties : Fits p [] := ⟨Nat.zero_le _, List.Pairwise.nil, Nat.zero_le _⟩
      have htried := identifyStream_rejects p hp [] c.indexed hempties
        (fun h hh => absurd hh not_mem_nil) hsel
      rw [hzero, hempty] at htried
      -- the name stands for this stream only
      have hnot : ¬ Takes streams p name := by
        rintro ⟨c', hc', hsel'⟩
        rw [hc] at hc'
        rw [Option.some.inj hc'] at hsel
        exact hsel hsel'
      simp only [identifyStreams, hheaders, htried.1, htried.2, Bool.false_eq_true, if_false]
      refine ⟨classification_cons streams assemble hnot ih.1,
        .cons ⟨c, hc, hheaders, hpipeName, hpipe⟩ ih.2.1, ?_⟩
      rw [map_cons, map_cons, sum_cons, sum_cons, ih.2.2, Nat.add_assoc]

/-- One packet: the outcome is right, the parser keeps its streams, and the
packet is counted once. -/
theorem parsetreeIdentify_step {names : List String} {pt : ParseTree π} (hp : Received p)
    (hconf : List.Forall₂ (ConfiguredAs streams assemble) names pt.streams) :
    Classification streams assemble names p (parsetreeIdentify pt p).2 ∧
      List.Forall₂ (ConfiguredAs streams assemble) names (parsetreeIdentify pt p).1.streams ∧
      packetCount (parsetreeIdentify pt p).1 = packetCount pt + 1 := by
  rcases identifyStreams_classification streams assemble hp hconf with
    ⟨hout, hkeep, hsum⟩
  cases hfound : (identifyStreams pt.streams p).1 with
  | none =>
    rw [hfound] at hout hsum
    simp only [parsetreeIdentify, hfound, packetCount]
    refine ⟨hout, hkeep, ?_⟩
    rw [hsum, Option.isSome_none, if_neg Bool.false_ne_true]
    omega
  | some s =>
    rw [hfound] at hout hsum
    simp only [parsetreeIdentify, hfound, packetCount]
    refine ⟨hout, hkeep, ?_⟩
    rw [hsum, Option.isSome_some, if_pos rfl]
    omega

theorem parsetreeIdentify_run {names : List String} (pt : ParseTree π) {ps : List Packet}
    (hps : ∀ p ∈ ps, Received p)
    (hconf : List.Forall₂ (ConfiguredAs streams assemble) names pt.streams) :
    EveryStep parsetreeIdentify
        (fun pt' p => Classification streams assemble names p (parsetreeIdentify pt' p).2) pt ps ∧
      packetCount (final parsetreeIdentify pt ps) = packetCount pt + ps.length := by
  induction ps generalizing pt with
  | nil => exact ⟨trivial, rfl⟩
  | cons p ps ih =>
    rcases forall_mem_cons.mp hps with ⟨hp, hps⟩
    rcases parsetreeIdentify_step streams assemble hp hconf with ⟨hout, hkeep, hone⟩
    rcases ih _ hps hkeep with ⟨hevery, hfinal⟩
    refine ⟨⟨hout, hevery⟩, ?_⟩
    rw [final_cons, hfinal, hone, length_cons]
    omega

/-- Stream classification. A parser with the streams of an accepted line classifies
any number of received packets. Every packet goes to the first stream of the line
that selects it, if there is one, and the counters add up to the number of packets. -/
theorem parsetreeIdentify_first_stream (isIface : String → Bool) (key value : List Char)
    (ifname : String) (entries : List (ConfStreamEntry α)) (pt : ParseTree π) (ps : List Packet)
    (hline : ifaceStreamCb isIface streams key value = .ok (some (ifname, entries)))
    (hadd : addstreamCb assemble newParsetree entries = .ok pt)
    (hps : ∀ p ∈ ps, Received p) :
    EveryStep parsetreeIdentify
        (fun pt' p => Classification streams assemble (words value) p (parsetreeIdentify pt' p).2)
        pt ps ∧
      packetCount (final parsetreeIdentify pt ps) = ps.length := by
  rcases ifaceStreamCb_names hline with ⟨hnames, hall⟩
  rcases addstreamCb_configured newParsetree hall hadd with ⟨ss, hss, hconf, hcount⟩
  have hstart : pt.streams = ss := by
    rw [hss]
    rfl
  have hzero : packetCount pt = 0 := by
    rw [hcount]
    rfl
  rw [hnames, ← hstart] at hconf
  rcases parsetreeIdentify_run streams assemble pt hps hconf with ⟨hevery, hfinal⟩
  refine ⟨hevery, ?_⟩
  rw [hfinal, hzero, Nat.zero_add]

end Run

def taggedStream : ConfStream Unit where
  actions := ()
  headers :=
    [⟨"eth", .eth, []⟩, ⟨"cvlan", .cvlan, [⟨⟨1, 4, 12⟩, ⟨[0, 5], 4, 12⟩, .generic, true⟩]⟩]
  indexed := by
    intro k h hk m hm
    rcases k with _ | _ | k
    · rw [← Option.some.inj hk] at hm
      exact absurd hm not_mem_nil
    · rw [← Option.some.inj hk] at hm
      rw [mem_singleton.mp hm]
    · cases hk

def ethStream : ConfStream Unit where
  actions := ()
  headers := [⟨"eth", .eth, []⟩]
  indexed := by
    intro k h hk m hm
    rcases k with _ | k
    · rw [← Option.some.inj hk] at hm
      exact absurd hm not_mem_nil
    · cases hk

def twoStreams (name : String) : Option (ConfStream Unit) :=
  if name = "tagged" then some taggedStream
  else if name = "all" then some ethStream
  else none

/-- A line with two streams, and three packets: one for each stream and one
that is too short for both. -/
theorem parsetreeIdentify_first_stream_tagged :
    ∃ entries pt,
      ifaceStreamCb (fun _ => true) twoStreams "if0:streams".toList " tagged  all".toList =
        .ok (some ("if0", entries)) ∧
      addstreamCb (fun name _ => some name) newParsetree entries = .ok pt ∧
      EveryStep parsetreeIdentify
        (fun pt' p => Classification twoStreams (fun name _ => some name)
          (words " tagged  all".toList) p (parsetreeIdentify pt' p).2) pt
        [{ newPacket (fun _ => 0) with len := 60 }, { newPacket (fun _ => 5) with len := 14 },
          { newPacket (fun _ => 0) with len := 12 }] ∧
      packetCount (final parsetreeIdentify pt
        [{ newPacket (fun _ => 0) with len := 60 }, { newPacket (fun _ => 5) with len := 14 },
          { newPacket (fun _ => 0) with len := 12 }]) = 3 := by
  have hreceived : ∀ (b : UInt8) (n : Nat), Received { newPacket (fun _ => b) with len := n } := by
    intro b n
    have h := newPacket_received fun _ => b
    exact ⟨h.headers, h.scratchLen, h.start_pos, h.start_le⟩
  refine ⟨[⟨taggedStream, "tagged"⟩, ⟨ethStream, "all"⟩], _, rfl, rfl,
    parsetreeIdentify_first_stream twoStreams (fun name _ => some name) (fun _ => true)
      "if0:streams".toList " tagged  all".toList "if0" _ _ _ rfl rfl ?_⟩
  intro p hp
  simp only [mem_cons, not_mem_nil, or_false] at hp
  rcases hp with rfl | rfl | rfl <;> exact hreceived _ _

end Dnt
