import Dnt.Theory.Actions.AddDel
import Dnt.Theory.Actions.Stages

/-!
# Indices of a Compiled Line

What a line compiles to has correct indices, with all the lines it jumps and
replicates to. The exception are the assignments of an add action that read a header at or
behind the position of the new one. Their index is one too small. The induction is on what
the line produces.

## Main definitions

* `addStages`: The add stages of a line, and of the lines below it.
* `lookAt`: The action at some position of a compiled line, and a packet that gets there.

## Theorems

* `compiled_refers_iff`: All actions that are executed find the headers they name just if
  no add stage reads behind its new header.
-/

namespace Dnt

open List

/-! ## Stages -/

variable {env : CompileEnv} {lines : List (List Char)} {line : List Char} {as : List ConfAction}
  {headers : List HeaderDescriptor} {n : Nat} {s s' : StageState} {stream : String}

theorem refsOk_field (tail : List Origin) (headers : List ConfHeader) (field : Option FieldRef)
    (h : ∀ f ∈ field, FieldOk headers f) :
    ∀ r ∈ (field.map FieldRef.ref).toList, Refers (originsOf headers tail) r := by
  intro r hr
  rw [Option.mem_toList, Option.map_eq_some_iff] at hr
  rcases hr with ⟨f, hf, rfl⟩
  exact refers_of_fieldOk tail (h f hf)

theorem refsOk_checksum (tail : List Origin) {headers : List ConfHeader} {d : ChecksumAction}
    (hfield : ∀ f ∈ d.field, FieldOk headers f) (hpseudo : hasPseudoHeader d.hdrProto = true →
      ∃ h, headers[d.ipIdx]? = some h ∧ h.tag = d.ipTag) :
    ∀ r ∈ d.refs, Refers (originsOf headers tail) r := by
  intro r hr
  rcases mem_append.mp hr with hr | hr
  · exact refsOk_field tail headers d.field hfield r hr
  · split at hr
    · rename_i hcovered
      rcases hpseudo hcovered with ⟨ip, hip, htag⟩
      rw [mem_singleton.mp hr, ← htag]
      exact Or.inl (getElem?_originsOf tail hip)
    · cases hr

/-- The payload is the first header of that type in the list, or what comes
behind the list, if anything does. -/
theorem refers_payload (tail : List Origin) (headers : List ConfHeader) (p : ConfHeader → Bool)
    (hpayload : ∀ x ∈ tail, x = Origin.payload) (r : HeaderRef)
    (hr : r ∈ match headers[headers.findIdx p]?.map ConfHeader.tag with
      | some tag => [(⟨headers.findIdx p, .header tag⟩ : HeaderRef)]
      | none => [⟨headers.findIdx p, .payload⟩]) :
    Refers (originsOf headers tail) r := by
  cases hget : headers[headers.findIdx p]? with
  | some h =>
    simp only [hget, Option.map_some, mem_singleton] at hr
    rw [hr]
    exact Or.inl (getElem?_originsOf tail hget)
  | none =>
    simp only [hget, Option.map_none, mem_singleton] at hr
    rw [hr]
    -- the index is then the length of the list
    have hend : headers.findIdx p = headers.length := by
      have hle := getElem?_eq_none_iff.mp hget
      have hge : headers.findIdx p ≤ headers.length := findIdx_le_length
      omega
    cases tail with
    | nil =>
      refine Or.inr ⟨rfl, ?_⟩
      simp [originsOf, exists_false]
    | cons x tail =>
      refine Or.inl ?_
      rw [originsOf, hend, getElem?_append_right (by rw [length_map]),
        length_map, Nat.sub_self, getElem?_cons_zero, hpayload x mem_cons_self]

theorem refsOk_lengthOf (tail : List Origin) (headers : List ConfHeader) (fresh : Nat)
    (hdr : ConfHeader) (base : Nat) (hok : HeadersOk headers fresh)
    (hpayload : ∀ x ∈ tail, x = Origin.payload) (hmem : hdr ∈ headers) :
    ∀ r ∈ (lengthOf headers hdr base).refs, Refers (originsOf headers tail) r := by
  intro r hr
  have hpay := refers_payload tail headers (fun h => h.desc.id = .payload) hpayload r
  have hfield : ∀ f ∈ (lengthOf headers hdr base).field, FieldOk headers f := by
    intro f hf
    rcases Option.map_eq_some_iff.mp hf with ⟨pf, -, rfl⟩
    exact @fieldOk_newHeaderfield hdr _ _ pf (@getElem?_headerIndex hdr headers fresh hok hmem)
  unfold SetlengthAction.refs at hr
  split at hr
  · rename_i tag htag
    rcases mem_append.mp hr with hr | hr
    · exact refsOk_field tail headers _ hfield r hr
    · refine hpay ?_
      rw [show headers[headers.findIdx _]?.map ConfHeader.tag = some tag from htag]
      exact hr
  · rename_i htag
    rcases mem_append.mp hr with hr | hr
    · exact refsOk_field tail headers _ hfield r hr
    · refine hpay ?_
      rw [show headers[headers.findIdx _]?.map ConfHeader.tag = none from htag]
      exact hr

section Block

variable {env : CompileEnv} {s s' : StageState} {stage : List Char} {block : List ConfAction}
  {tail : List Origin}

theorem refsOk_finished (hok : HeadersOk s.headers s.fresh)
    (hpayload : ∀ x ∈ tail, x = Origin.payload) (a : ConfAction) (h : Finished env s a.body) :
    plain a.body = true ∧ RefsOk (originsOf s.headers tail) a := by
  rcases a with ⟨text, auto, body⟩
  have hget := fun h hmem => @getElem?_headerIndex h s.headers s.fresh hok hmem
  -- a field of a header of the list
  have hfield : ∀ (type : ProtocolFieldType) (h : ConfHeader) (field : Option FieldRef),
      h ∈ s.headers → headerGetFieldOfType h (headerIndex s.headers h) type = field →
      ∀ f ∈ field, FieldOk s.headers f := by
    rintro type h field hmem rfl f hf
    exact @fieldOk_headerGetFieldOfType h _ _ _ _ (hget h hmem) hf
  cases body with
  | checksum d | verify d =>
    rcases h with ⟨⟨f, h, hf, hmem, hsome⟩, hpseudo⟩
    refine ⟨rfl, refsOk_checksum tail ?_ hpseudo⟩
    rw [hf]
    exact hfield .checksum h _ hmem hsome
  | edit assignments addedAt =>
    rcases h with ⟨rfl, hassigned⟩
    refine ⟨rfl, refsOk_edit tail text auto none fun x hx => ?_⟩
    rcases hassigned x hx with ⟨h, f, hx⟩
    rcases hx.rhs with ⟨rhs, hrhs⟩
    refine ⟨?_, @fieldOk_processAssignmentRhs env _ _ _ s.headers _ _ s.fresh hok hrhs⟩
    rw [hx.lhs]
    exact @fieldOk_newHeaderfield h _ _ f (hget h hx.mem)
  | metadata op field =>
    rcases h with ⟨f, h, rfl, hmem, hsome⟩
    exact ⟨rfl, refsOk_of_field tail rfl
      (@fieldOk_metaField s.headers op h _ f (hget h hmem) hsome)⟩
  | setlength d =>
    rcases h with ⟨hdr, base, hmem, -, rfl⟩
    exact ⟨rfl, refsOk_lengthOf tail s.headers s.fresh hdr base hok hpayload hmem⟩
  | ttlreduce d =>
    rcases h with ⟨f, h, hf, hmem, hsome, hcsum⟩
    refine ⟨rfl, forall_mem_append.mpr ⟨refsOk_field tail s.headers _ ?_,
      refsOk_field tail s.headers _ (hfield .checksum h _ hmem hcsum.symm)⟩⟩
    rw [hf]
    exact hfield .ttl h _ hmem hsome
  | oam | delay | drop | pof | seqgen | ttlcheck => exact ⟨rfl, nofun⟩
  | _ => exact absurd h id

/-- The actions of a stage find the headers in front of it, and leave those
behind it. -/
theorem right_of_block (hok : HeadersOk s.headers s.fresh)
    (hpayload : ∀ x ∈ tail, x = Origin.payload) (h : Block env s stage block s') :
    Right (originsOf s.headers tail) block (originsOf s'.headers tail) := by
  cases h with
  | plain body offload final seq ttl mw hfinished hfinal =>
    rcases refsOk_finished hok hpayload (userAction stage body) hfinished with ⟨hplain, hrefs⟩
    exact right_plain hplain hrefs
  | send iface mw hnone => exact right_plain rfl nofun
  | checkedSend iface mw hsome =>
    have hcheck : Right (originsOf s.headers tail) [autoCheck] (originsOf s.headers tail) :=
      right_plain rfl nofun
    exact hcheck.append (forall_mem_singleton.mpr rfl)
      (right_plain rfl nofun)
  | add d newname pos writeseq ofNew ofPrev mw hknown hadded =>
    exact right_addedBlock tail hok hknown hadded
  | del d delh edits mw hdelh hhdr hedits =>
    exact right_deletedBlock tail hok hdelh hhdr hedits

theorem clean_block_iff (hok : HeadersOk s.headers s.fresh)
    (hpayload : ∀ x ∈ tail, x = Origin.payload) (h : Block env s stage block s') :
    (∀ st ∈ s'.added, st.ReadsInFront) ↔ Clean block ∧ ∀ st ∈ s.added, st.ReadsInFront := by
  cases h with
  | plain body offload final seq ttl mw hfinished hfinal =>
    refine (and_iff_right (clean_of_leaves (forall_mem_singleton.mpr ?_))).symm
    exact leaf_of_plain (refsOk_finished hok hpayload (userAction stage body) hfinished).1
  | send iface mw hnone =>
    exact (and_iff_right (clean_of_leaves (forall_mem_singleton.mpr rfl))).symm
  | checkedSend iface mw hsome =>
    exact (and_iff_right (clean_of_leaves (forall_mem_cons.mpr
      ⟨rfl, forall_mem_singleton.mpr rfl⟩))).symm
  | add d newname pos writeseq ofNew ofPrev mw hknown hadded =>
    rw [forall_mem_cons, clean_addedBlock_iff hok hknown hadded]
  | del d delh edits mw hdelh hhdr hedits =>
    refine (and_iff_right (clean_of_leaves ?_)).symm
    refine forall_mem_append.mpr ⟨forall_mem_append.mpr ⟨?_, ?_⟩,
      forall_mem_singleton.mpr rfl⟩
    · unfold filterForDel
      split
      · exact nofun
      · exact forall_mem_singleton.mpr rfl
    · unfold deletedEdit
      split
      · exact nofun
      · exact forall_mem_singleton.mpr rfl

theorem goesOn_of_block (h : Block env s stage block s') (hopen : s'.hadFinal = false) :
    ∀ a ∈ block, goesOn a.body = true := by
  cases h with
  | plain body offload final seq ttl mw hfinished hfinal =>
    refine forall_mem_singleton.mpr ?_
    cases body with
    | drop => exact absurd ((hfinal.mpr rfl).symm.trans hopen) Bool.true_eq_false_eq_False
    | undef | jump | repl => exact absurd hfinished id
    | _ => rfl
  | send iface mw hnone => exact forall_mem_singleton.mpr rfl
  | checkedSend iface mw hsome =>
    exact forall_mem_cons.mpr ⟨rfl, forall_mem_singleton.mpr rfl⟩
  | add d newname pos writeseq ofNew ofPrev mw hknown hadded =>
    exact forall_mem_cons.mpr ⟨rfl, fun b hb => (generated_spec
      (generated_added hadded b hb)).1⟩
  | del d delh edits mw hdelh hhdr hedits =>
    exact forall_mem_append.mpr ⟨fun b hb => (generated_spec
      (generated_deleted b hb)).1, forall_mem_singleton.mpr rfl⟩

end Block

/-! ## Lines -/

theorem right_passing (o : List Origin) (h : ∀ a ∈ as, passing a.body = true) :
    Right o as o ∧ Clean as ∧ ∀ a ∈ as, goesOn a.body = true := by
  have hspec : ∀ a ∈ as, plain a.body = true ∧ RefsOk o a ∧ goesOn a.body = true := by
    intro a ha
    have hpass := h a ha
    rcases a with ⟨text, auto, body⟩
    cases body with
    | elim | oam => exact ⟨rfl, nofun, rfl⟩
    | _ => cases hpass
  refine ⟨?_, clean_of_leaves fun a ha => leaf_of_plain (hspec a ha).1,
    fun a ha => (hspec a ha).2.2⟩
  clear h
  induction as with
  | nil => exact right_nil o
  | cons a as ih =>
    rcases forall_mem_cons.mp hspec with ⟨⟨hplain, hrefs, hgoes⟩, has⟩
    exact (right_plain hplain hrefs).append (forall_mem_singleton.mpr hgoes) (ih has)

theorem nil_of_produces (h : Produces env n s lines as s') (hfinal : s.hadFinal = true) :
    as = [] := by
  cases h with
  | nil => rfl
  | block _ _ s₁ _ stage rest block as hopen =>
    rw [hfinal] at hopen
    cases hopen
  | jump n _ j _ stage line name lead news as mw hopen | repl n _ _ stage points d runs hopen =>
    rw [hfinal] at hopen
    cases hopen

/-- The actions of a line find the headers in front of it. They are clean if and
only if the add stages of the line are. -/
theorem right_of_produces {tail : List Origin} (hpayload : ∀ x ∈ tail, x = Origin.payload)
    (h : Produces env n s lines as s') (hok : HeadersOk s.headers s.fresh) :
    (∃ o, Right (originsOf s.headers tail) as o) ∧
      ((∀ st ∈ s'.added, st.ReadsInFront) ↔ Clean as ∧ ∀ st ∈ s.added, st.ReadsInFront) := by
  induction h with
  | nil n s =>
    exact ⟨⟨_, right_nil _⟩, (and_iff_right clean_nil).symm⟩
  | block n s s₁ s' stage rest block as hopen hgoes hblock hrest ih =>
    rcases ih (headersOk_of_block hok hblock) with ⟨⟨o, hright⟩, hcount⟩
    have hfirst := right_of_block hok hpayload hblock
    refine ⟨?_, ?_⟩
    · cases hfinal : s₁.hadFinal with
      | false => exact ⟨o, hfirst.append (goesOn_of_block hblock hfinal) hright⟩
      | true =>
        rw [nil_of_produces hrest hfinal, append_nil]
        exact ⟨_, hfirst⟩
    · rw [hcount, clean_block_iff hok hpayload hblock, clean_append_iff, ← and_assoc,
        and_comm (a := Clean as)]
  | jump n s j s' stage line name lead news as mw hopen hlead hline hnews hrest hadded hfinal
      hfresh hactions ih =>
    rcases right_passing (originsOf s.headers tail)
      (passing_lead hlead) with ⟨hleadRight, hclean, hgoes⟩
    rcases ih hok with ⟨⟨o, hright⟩, hcount⟩
    refine ⟨⟨o, hleadRight.append hgoes hright⟩, ?_⟩
    rw [hadded, forall_mem_append, hcount, clean_append_iff, and_iff_right hclean]
    exact and_congr_left fun _ => and_iff_left nofun
  | repl n s s' stage points d runs hopen hgoes hpoints hruns hstart hbranch hadded hfinal hfresh
      hactions ih =>
    rcases right_passing (originsOf s.headers tail) (passing_points hpoints)
      with ⟨hpointsRight, hclean, hgoes⟩
    -- a branch starts with copies of the headers, and with no stages
    have hruns' : ∀ r ∈ runs, (∃ o, Right (originsOf s.headers tail) r.branch.actions o) ∧
        ((∀ st ∈ r.stop.added, st.ReadsInFront) ↔ Clean r.branch.actions) := by
      intro r hr
      rcases hstart r hr with ⟨hstartOf, -, hacts⟩
      rcases ih r hr (headersOk_of_startOf hok hstartOf) with ⟨⟨o, hright⟩, hcount⟩
      rcases right_passing (originsOf s.headers tail)
        (passing_startOf hstartOf) with ⟨hmip, hmipClean, hmipGoes⟩
      rcases hstartOf with ⟨k, mw, news, points', -, -, hb, -⟩
      rw [hb, originsOf_eq_of_tags tail (tags_copyHeaderList s.headers k)] at hright
      rw [hacts]
      refine ⟨⟨o, hmip.append hmipGoes hright⟩, ?_⟩
      rw [hcount, clean_append_iff, and_iff_right hmipClean]
      refine and_iff_left ?_
      rw [hb]
      exact nofun
    refine ⟨⟨_, hpointsRight.append hgoes ⟨accurate_repl rfl ?_, reachable_repl rfl ?_, rfl⟩⟩, ?_⟩
    · rw [hruns, forall_mem_map]
      exact fun r hr => (hruns' r hr).1.elim fun _ h => h.accurate
    · rw [hruns, forall_mem_map]
      exact fun r hr => (hruns' r hr).1.elim fun _ h => h.reachable
    · rw [clean_append_iff, and_iff_right hclean, clean_cons_repl [] rfl,
        and_iff_left clean_nil, hruns, forall_mem_map]
      simp only [hadded, or_imp, forall_and, forall_exists_index, and_imp]
      refine and_congr_left fun _ => ?_
      rw [← forall₂_congr fun r hr => (hruns' r hr).2]
      exact ⟨fun h r hr st hst => h st r hr hst, fun h st r hr hst => h r hr st hst⟩

/-- The add stages of a line, and of the lines it jumps and replicates to. -/
def addStages (env : CompileEnv) (stream : String) (line : List Char)
    (headers : List HeaderDescriptor) : List AddStage :=
  match compileLine env stream line headers with
  | .ok s => s.added
  | .error _ => []

theorem compiled_spec {actions : List ConfAction}
    (hparse : parseActionsLine env stream line headers = .ok actions) (p : Packet) :
    Accurate (matchedPacket p headers).origins actions ∧
      Reachable (matchedPacket p headers).origins actions ∧
      (Clean actions ↔ ∀ st ∈ addStages env stream line headers, st.ReadsInFront) := by
  rcases produces_parseActionsLine hparse with
    ⟨first, rest, as, s', rfl, hcompile, hproduces, rfl⟩
  have hpayload : ∀ x ∈ payloadOrigins p (first :: rest), x = Origin.payload := by
    intro x hx
    rcases mem_map.mp hx with ⟨-, -, rfl⟩
    rfl
  rcases headers_initialState stream (first :: rest) first with ⟨hheaders, hfresh, hadded⟩
  have hok : HeadersOk (initialState stream (first :: rest) first).headers
      (initialState stream (first :: rest) first).fresh := by
    rw [hheaders, hfresh]
    exact headersOk_tagHeaders _
  rcases right_of_produces hpayload hproduces hok with ⟨⟨o, hright⟩, hcount⟩
  rw [hheaders] at hright
  rw [hadded] at hcount
  -- the automatic reduction of the time to live uses the first header
  have hreduce : Right (originsOf (tagHeaders (first :: rest) 0) (payloadOrigins p (first :: rest)))
      (initialState stream (first :: rest) first).actions
      (originsOf (tagHeaders (first :: rest) 0) (payloadOrigins p (first :: rest))) ∧
      (∀ a ∈ (initialState stream (first :: rest) first).actions, goesOn a.body = true) ∧
      Clean (initialState stream (first :: rest) first).actions := by
    unfold initialState
    dsimp only
    split
    · exact ⟨right_nil _, nofun, clean_nil⟩
    · rename_i field hfield
      exact ⟨right_plain rfl (refsOk_of_field _ rfl
          (fieldOk_headerGetFieldOfType rfl hfield)), forall_mem_singleton.mpr rfl,
        clean_of_leaves (forall_mem_singleton.mpr rfl)⟩
  rcases hreduce with ⟨hstart, hgoes, hclean⟩
  have hall := hstart.append hgoes hright
  refine ⟨hall.accurate, hall.reachable, ?_⟩
  rw [addStages, hcompile, hcount, clean_append_iff, and_iff_right hclean]
  exact (and_iff_left nofun).symm

/-- Header references of a compiled line. Suppose headers can be added whenever
the line wants to. Then every action executed on a packet that was matched, or
on a copy of it, finds the headers that its names denoted, if and only if no
add stage reads a header at or behind the position of the one it adds. -/
theorem compiled_refers_iff (env : CompileEnv) (stream : String) (line : List Char)
    (headers : List HeaderDescriptor) (actions : List ConfAction)
    (hparse : parseActionsLine env stream line headers = .ok actions) (p : Packet)
    (hadds : AddsSucceed (matchedPacket p headers) actions) :
    (∀ a t, Executes (matchedPacket p headers) actions a t → ∀ r ∈ a.refs, Refers t.origins r) ↔
      ∀ st ∈ addStages env stream line headers, st.ReadsInFront := by
  rcases compiled_spec hparse p with
    ⟨haccurate, hreachable, hcounted⟩
  refine Iff.trans ?_ hcounted
  constructor
  · -- every action is executed at some point, and found its headers there
    intro hrefs a ha
    rcases hreachable a ha with ⟨o', hvisit⟩
    rcases executes_of_visits hvisit _ rfl hadds with ⟨t, hrun, rfl⟩
    exact (haccurate a t.origins hvisit).mp (hrefs a t hrun)
  · intro hclean a t hrun
    have hvisit := visits_of_executes hrun
    exact (haccurate a t.origins hvisit).mpr (hclean a (within_of_visits hvisit))

/-- Compile a line, follow a packet that its stream matched to the action at
position `k`, and look at the two. Only the first action may add a header. -/
def lookAt (env : CompileEnv) (stream : String) (line : List Char)
    (headers : List HeaderDescriptor) (p : Packet) (k : Nat)
    (check : ConfAction → TaggedPacket → Bool) : Bool :=
  match parseActionsLine env stream line headers with
  | .error _ => false
  | .ok actions =>
    addsAtOnce (matchedPacket p headers) actions &&
      match actions[k]?, passes (matchedPacket p headers) (actions.take k) with
      | some a, some t => check a t
      | _, _ => false

theorem exists_of_lookAt {p : Packet} {k : Nat} {check : ConfAction → TaggedPacket → Bool}
    (h : lookAt env stream line headers p k check = true) :
    ∃ actions a t, parseActionsLine env stream line headers = .ok actions ∧
      AddsSucceed (matchedPacket p headers) actions ∧
      Executes (matchedPacket p headers) actions a t ∧ check a t = true := by
  unfold lookAt at h
  split at h
  · cases h
  · rename_i actions hparse
    rcases (Bool.and_eq_true _ _).mp h with ⟨hadds, h⟩
    split at h
    · rename_i a t hget hpass
      rcases List.getElem?_eq_some_iff.mp hget with ⟨hlt, hk⟩
      refine ⟨actions, a, t, hparse, addsSucceed_of_addsAtOnce hadds, ?_, h⟩
      have hrun := executes_of_passes _ (actions.drop (k + 1)) a hpass
      rw [← hk, getElem_cons_drop hlt, take_append_drop] at hrun
      rw [← hk]
      exact hrun
    · cases h

def oneInterface : CompileEnv :=
  { iface := fun name => if name = "out" then some ⟨"out", none⟩ else none
    object := fun _ => none
    streamsSec := fun _ => none
    readConstant := fun _ _ _ _ => none
    scanDelay := fun _ => none
    scanLevel := fun _ => none }

def taggedHeaders : List HeaderDescriptor :=
  [⟨"eth", .eth, []⟩, ⟨"cvlan", .cvlan, []⟩]

def hundredOctets : Packet :=
  { newPacket (fun _ => 0) with len := 100 }

/-- A second tag behind the first one that takes over its priority. All indices
are right. -/
theorem compiled_refers_inner_tag :
    ∃ actions a t, parseActionsLine oneInterface "s"
        "after cvlan add cvlan_inner pcp=cvlan.pcp, send out".toList taggedHeaders = .ok actions ∧
      AddsSucceed (matchedPacket hundredOctets taggedHeaders) actions ∧
      Executes (matchedPacket hundredOctets taggedHeaders) actions a t ∧
      (⟨1, .header 1⟩ : HeaderRef) ∈ a.refs ∧ ∀ r ∈ a.refs, Refers t.origins r := by
  have hlook : lookAt oneInterface "s"
      "after cvlan add cvlan_inner pcp=cvlan.pcp, send out".toList taggedHeaders hundredOctets 1
      (fun a _ => decide ((⟨1, .header 1⟩ : HeaderRef) ∈ a.refs)) = true := by
    decide +kernel
  rcases exists_of_lookAt hlook with ⟨actions, a, t, hparse, hadds, hrun, hcheck⟩
  refine ⟨actions, a, t, hparse, hadds, hrun, of_decide_eq_true hcheck, ?_⟩
  exact (compiled_refers_iff _ _ _ _ actions hparse _ hadds).mpr (by decide +kernel) a t hrun

/-- A tag in front of the first one that should take over its priority. The tag
it reads is the new one. -/
theorem copiedPriority_reads_new_tag :
    ∃ actions a t, Selects hundredOctets taggedHeaders ∧
      parseActionsLine oneInterface "s"
        "before cvlan add svlan pcp=cvlan.pcp, send out".toList taggedHeaders = .ok actions ∧
      AddsSucceed (matchedPacket hundredOctets taggedHeaders) actions ∧
      Executes (matchedPacket hundredOctets taggedHeaders) actions a t ∧
      t.origins = [.header 0, .header 2, .header 1, .payload] ∧
      (⟨1, .header 1⟩ : HeaderRef) ∈ a.refs ∧ ¬ Refers t.origins ⟨1, .header 1⟩ := by
  have hlook : lookAt oneInterface "s"
      "before cvlan add svlan pcp=cvlan.pcp, send out".toList taggedHeaders hundredOctets 1
      (fun a t => decide (t.origins = [.header 0, .header 2, .header 1, .payload] ∧
        (⟨1, .header 1⟩ : HeaderRef) ∈ a.refs ∧ ¬ Refers t.origins ⟨1, .header 1⟩)) = true := by
    decide +kernel
  rcases exists_of_lookAt hlook with ⟨actions, a, t, hparse, hadds, hrun, hcheck⟩
  exact ⟨actions, a, t, by decide +kernel, hparse, hadds, hrun, of_decide_eq_true hcheck⟩

end Dnt
