import Dnt.Theory.Actions.Compiled

/-!
# The Automatic Check of the Time to Live

If the first header of a stream has a time to live, it is reduced at the start of the
line, and a check waits to be put in front of the first send. Deleting the header
cancels the check. The compiler knows the header by its address, and a branch of a
replicate action has copies of the headers. So a deletion in a branch is not
recognised, and the check is put in although the header is gone.

## Main definitions

* `FirstSend`: The actions a packet meets before its first send.
* `Checked`, `FirstDeleted`: The check is among them, and the deletion of the header.

## Theorems

* `checked_iff_not_deleted_iff`: The check is put in just if the header is not deleted,
  exactly if the header is not deleted in a branch.
-/

namespace Dnt

open List

/-- What an action means for the check. -/
inductive TtlRole where
  | send
  | branches
  | check
  | deletes (tag : Nat)
  | other
deriving DecidableEq

/-- Only the checks that nobody wrote are of interest. -/
def ConfAction.ttlRole (a : ConfAction) : TtlRole :=
  match a.body with
  | .send _ => .send
  | .repl _ => .branches
  | .ttlcheck => if a.auto = true then .check else .other
  | .del d => (d.hdr.map fun h => TtlRole.deletes h.tag).getD .other
  | _ => .other

/-- `FirstSend actions before`: on one of its paths through the pipeline a packet meets
the actions of `before`, and then a send for the first time. In the place of a jump
there are the actions of its line. -/
inductive FirstSend : List ConfAction → List ConfAction → Prop where
  | here (a : ConfAction) (actions : List ConfAction) (iface : Option Interface)
      (hbody : a.body = .send iface) : FirstSend (a :: actions) []
  | next (a : ConfAction) (actions before : List ConfAction)
      (hsend : ∀ iface, a.body ≠ .send iface) (hgoes : goesOn a.body = true)
      (hrest : FirstSend actions before) : FirstSend (a :: actions) (a :: before)
  | branch (a : ConfAction) (actions before : List ConfAction) (d : ReplAction ConfAction)
      (br : ReplicateBranch ConfAction) (hbody : a.body = .repl d) (hbr : br ∈ d.pipelines)
      (hrest : FirstSend br.actions before) : FirstSend (a :: actions) (a :: before)

/-- A generated check is right in front of the send. -/
abbrev Checked (before : List ConfAction) : Prop :=
  (before.map ConfAction.ttlRole).getLast? = some .check

/-- One of the actions deletes the first header of the stream, which has tag 0. -/
abbrev FirstDeleted (before : List ConfAction) : Prop :=
  .deletes 0 ∈ before.map ConfAction.ttlRole

/-- It is deleted before the path goes into a branch. -/
abbrev DeletedOutside (before : List ConfAction) : Prop :=
  .deletes 0 ∈ (before.map ConfAction.ttlRole).takeWhile (· ≠ .branches)

variable {env : CompileEnv} {a : ConfAction} {front rest before : List ConfAction}
  {branched : Bool} {s s' : StageState} {stage : List Char} {delh : ConfHeader}

/-! ### Actions in front of others -/

theorem firstSend_append (hsend : ∀ a ∈ front, a.ttlRole ≠ .send)
    (hrepl : ∀ a ∈ front, a.ttlRole ≠ .branches) (h : FirstSend (front ++ rest) before) :
    ∃ before', before = front ++ before' ∧ FirstSend rest before' := by
  induction front generalizing before with
  | nil => exact ⟨before, rfl, h⟩
  | cons a front ih =>
    rw [forall_mem_cons] at hsend hrepl
    cases h with
    | here _ _ iface hbody => exact absurd (by rw [ConfAction.ttlRole, hbody]) hsend.1
    | next _ _ before _ _ hrest =>
      rcases ih hsend.2 hrepl.2 hrest with ⟨before', rfl, hbefore⟩
      exact ⟨before', rfl, hbefore⟩
    | branch _ _ _ d br hbody => exact absurd (by rw [ConfAction.ttlRole, hbody]) hrepl.1

theorem checked_append (h : ∀ a ∈ front, a.ttlRole ≠ .check) :
    Checked (front ++ rest) ↔ Checked rest := by
  unfold Checked
  rw [map_append, getLast?_append]
  cases hlast : (rest.map ConfAction.ttlRole).getLast? with
  | some r => rfl
  | none =>
    refine iff_of_false (fun hcheck => ?_) nofun
    rcases mem_map.mp (mem_of_getLast? hcheck) with ⟨a, ha, hrole⟩
    exact h a ha hrole

theorem deletedOutside_append (h : ∀ a ∈ front, a.ttlRole ≠ .branches) :
    DeletedOutside (front ++ rest) ↔ FirstDeleted front ∨ DeletedOutside rest := by
  have hall : ∀ r ∈ front.map ConfAction.ttlRole, decide (r ≠ .branches) = true :=
    forall_mem_map.mpr fun a ha => decide_eq_true (h a ha)
  unfold DeletedOutside
  rw [map_append, takeWhile_append_of_pos hall, mem_append]

theorem ttlRole_of_finished {body : ActionBody ConfAction} (h : Finished env s body) :
    (userAction stage body).ttlRole = .other := by
  cases body with
  | del d | repl d | send iface => exact h.elim
  | _ => rfl

theorem ttlRole_of_generated (h : generated a.body = true) : a.ttlRole = .other := by
  unfold ConfAction.ttlRole
  cases hbody : a.body <;> simp_all [generated]

theorem ttlRole_of_passing (h : passing a.body = true) : a.ttlRole = .other := by
  unfold ConfAction.ttlRole
  cases hbody : a.body <;> simp_all [passing]

/-! ### The header that was reduced -/

/-- A check that is pending is for address 0. This is the address of the first header of
the stream, but in a branch it is that of no header. -/
structure TtlState (branched : Bool) (s : StageState) : Prop where
  pos : 0 < s.fresh
  pending : ∀ addr ∈ s.needsTtlcheck, addr = 0
  addrs : ∀ h ∈ s.headers, (h.addr = 0 ↔ branched = false ∧ h.tag = 0)

theorem ttlState_of_block (hs : TtlState branched s) (h : Block env s stage front s') :
    TtlState branched s' := by
  have hpos := Nat.lt_of_lt_of_le hs.pos (fresh_of_block h)
  cases h with
  | plain | send => exact ⟨hpos, hs.pending, hs.addrs⟩
  | checkedSend => exact ⟨hpos, nofun, hs.addrs⟩
  | add d newname pos writeseq ofNew ofPrev mw hknown hadded =>
    refine ⟨hpos, hs.pending, fun h hh => ?_⟩
    rcases eq_or_mem_of_mem_insertIdx hh with rfl | hold
    · -- a new header has a new address and a new tag
      have hne : s.fresh ≠ 0 := Nat.ne_of_gt hs.pos
      exact iff_of_false hne fun hno => hne hno.2
    · exact hs.addrs h hold
  | del d delh edits mw hdelh hhdr hedits =>
    refine ⟨hpos, fun addr haddr => ?_, fun h hh => hs.addrs h (mem_of_mem_eraseIdx hh)⟩
    dsimp only at haddr
    split at haddr
    · cases haddr
    · exact hs.pending addr haddr

theorem ttlState_of_startOf {b : StageState} {name : String} (hs : TtlState branched s)
    (h : StartOf s name b) : TtlState true b := by
  rcases h with ⟨k, mw, news, points, hle, -, rfl, -⟩
  have hpos := hs.pos
  refine ⟨by dsimp only; omega, hs.pending, fun h hh => iff_of_false ?_ nofun⟩
  have hmem := mem_map_of_mem (f := ConfHeader.addr) hh
  rw [addrs_copyHeaderList, mem_range'_1] at hmem
  omega

theorem pending_of_del (hs : TtlState branched s) (hdelh : delh ∈ s.headers) :
    (if s.needsTtlcheck = some delh.addr then none else s.needsTtlcheck).isSome = true ↔
      s.needsTtlcheck.isSome = true ∧ ¬ (branched = false ∧ delh.tag = 0) := by
  rw [← hs.addrs delh hdelh]
  cases hneeds : s.needsTtlcheck with
  | none => simp
  | some addr =>
    cases hs.pending addr hneeds
    by_cases hzero : delh.addr = 0 <;> simp [hzero, eq_comm]

/-! ### The first send of a path -/

/-- On all paths through these actions, a check is put in front of the first send if one
is pending and the header is not deleted, except in a branch. -/
def Guards (branched : Bool) (s : StageState) (actions : List ConfAction) : Prop :=
  ∀ before, FirstSend actions before → (Checked before ↔
    s.needsTtlcheck.isSome = true ∧ (branched = true ∨ ¬ DeletedOutside before))

theorem guards_other (hfront : ∀ a ∈ front, a.ttlRole = .other)
    (hneeds : s'.needsTtlcheck = s.needsTtlcheck) (h : Guards branched s' rest) :
    Guards branched s (front ++ rest) := by
  intro before hpath
  have hrole (r : TtlRole) (hr : .other ≠ r) : ∀ a ∈ front, a.ttlRole ≠ r :=
    fun a ha => hfront a ha ▸ hr
  have hdeleted : ¬ FirstDeleted front := fun hmem => by
    rcases mem_map.mp hmem with ⟨a, ha, hno⟩
    exact hrole (.deletes 0) nofun a ha hno
  rcases firstSend_append (hrole _ nofun) (hrole _ nofun) hpath with ⟨before, rfl, hrest⟩
  rw [checked_append (hrole _ nofun), h before hrest, hneeds,
    deletedOutside_append (hrole _ nofun), or_iff_right hdeleted]

theorem guards_del (hs : TtlState branched s) (hdelh : delh ∈ s.headers)
    (hrole : a.ttlRole = .deletes delh.tag) (hneeds : s'.needsTtlcheck =
      if s.needsTtlcheck = some delh.addr then none else s.needsTtlcheck)
    (h : Guards branched s' rest) : Guards branched s ([a] ++ rest) := by
  intro before hpath
  have hno (r : TtlRole) (hr : .deletes delh.tag ≠ r) : ∀ b ∈ [a], b.ttlRole ≠ r :=
    forall_mem_singleton.mpr (hrole ▸ hr)
  have hdeleted : FirstDeleted [a] ↔ delh.tag = 0 := by
    rw [FirstDeleted, map_singleton, hrole, mem_singleton, TtlRole.deletes.injEq, eq_comm]
  rcases firstSend_append (hno _ nofun) (hno _ nofun) hpath with ⟨before, rfl, hrest⟩
  rw [checked_append (hno _ nofun), h before hrest, hneeds, pending_of_del hs hdelh,
    deletedOutside_append (hno _ nofun), hdeleted]
  cases branched <;> simp [and_assoc]

theorem guards_send {iface : Option Interface} (hnone : s.needsTtlcheck = none) :
    Guards branched s (userAction stage (.send iface) :: rest) := by
  intro before hpath
  cases hpath with
  | here => exact iff_of_false nofun fun hno => absurd hno.1 (by rw [hnone]; exact nofun)
  | next _ _ _ hsend => exact absurd rfl (hsend iface)
  | branch _ _ _ d br hbody => cases hbody

theorem guards_block (hs : TtlState branched s) (hblock : Block env s stage front s')
    (h : Guards branched s' rest) : Guards branched s (front ++ rest) := by
  cases hblock with
  | plain body offload final seq ttl mw hfinished hfinal =>
    exact guards_other (forall_mem_singleton.mpr (ttlRole_of_finished hfinished)) rfl h
  | add d newname pos writeseq ofNew ofPrev mw hknown hadded =>
    exact guards_other (forall_mem_cons.mpr
      ⟨rfl, fun b hb => ttlRole_of_generated (generated_added hadded b hb)⟩) rfl h
  | send iface mw hnone => exact guards_send hnone
  | checkedSend iface mw hsome =>
    intro before hpath
    cases hpath with
    | here _ _ iface hbody => cases hbody
    | branch _ _ _ d br hbody => cases hbody
    | next _ _ before _ _ hrest =>
      cases hrest with
      | here => exact iff_of_true rfl ⟨hsome, Or.inr (by decide)⟩
      | next _ _ _ hsend => exact absurd rfl (hsend iface)
      | branch _ _ _ d br hbody => cases hbody
  | del d delh edits mw hdelh hhdr hedits =>
    rw [deletedBlock, append_assoc]
    refine guards_other (fun b hb => ttlRole_of_generated (generated_deleted b hb)) rfl
      (guards_del hs hdelh ?_ rfl h)
    simp only [ConfAction.ttlRole, hhdr, Option.map_some, Option.getD_some]

theorem guards_of_produces {n : Nat} {lines : List (List Char)} {as : List ConfAction}
    (h : Produces env n s lines as s') (hs : TtlState branched s) : Guards branched s as := by
  induction h generalizing branched with
  | nil n s => exact nofun
  | block n s s₁ s' stage rest block as hopen hgoes hblock hrest ih =>
    exact guards_block hs hblock (ih (ttlState_of_block hs hblock))
  | jump n s j s' stage line name lead news as mw hopen hlead hline hnews hrest hadded hfinal
      hfresh hactions ih =>
    -- a jump goes on with the same headers
    exact guards_other (fun a ha => ttlRole_of_passing (passing_lead hlead a ha)) rfl
      (ih ⟨hs.pos, hs.pending, hs.addrs⟩)
  | repl n s s' stage points d runs hopen hgoes hpoints hruns hstart hbranch hadded hfinal hfresh
      hactions ih =>
    refine guards_other (fun a ha => ttlRole_of_passing (passing_points hpoints a ha)) rfl
      fun before hpath => ?_
    cases hpath with
    | here _ _ iface hbody => cases hbody
    | next _ _ _ _ hgoes => cases hgoes
    | branch _ _ before d' br hbody hbr hrest =>
      cases hbody
      rw [hruns] at hbr
      rcases mem_map.mp hbr with ⟨r, hr, rfl⟩
      rcases hstart r hr with ⟨hstartOf, -, hacts⟩
      rw [hacts] at hrest
      have hneeds : r.start.needsTtlcheck = s.needsTtlcheck := by
        rcases hstartOf with ⟨k, mw, news, points', -, -, hb, -⟩
        rw [hb]
      -- in the branch, a pending check stays pending
      have hinner := guards_other (fun a ha => ttlRole_of_passing (passing_startOf hstartOf a ha))
        hneeds (ih r hr (ttlState_of_startOf hs hstartOf)) before hrest
      have hrole : ∀ a ∈ [userAction stage (.repl d)], a.ttlRole ≠ .check :=
        forall_mem_singleton.mpr nofun
      have houtside : ¬ DeletedOutside (userAction stage (.repl d) :: before) := nofun
      exact (checked_append hrole).trans (hinner.trans
        (and_congr_right' (iff_of_true (Or.inl rfl) (Or.inr houtside))))

/-! ### Streams -/

theorem ttlState_initialState (stream : String) (first : HeaderDescriptor)
    (headers : List HeaderDescriptor) :
    TtlState false (initialState stream (first :: headers) first) := by
  have haddrs : ∀ (hs : List HeaderDescriptor) (n : Nat), ∀ h ∈ tagHeaders hs n,
      (h.addr = 0 ↔ false = false ∧ h.tag = 0) := by
    intro hs
    induction hs with
    | nil => exact fun n => nofun
    | cons d hs ih =>
      exact fun n => forall_mem_cons.mpr ⟨(and_iff_right rfl).symm, ih (n + 1)⟩
  unfold initialState
  dsimp only
  split
  · exact ⟨Nat.succ_pos _, nofun, haddrs _ 0⟩
  · exact ⟨Nat.succ_pos _, fun addr h => (Option.some.inj h).symm, haddrs _ 0⟩

/-- Let the first header have a time to live, and take any path up to the first send. There
is a generated check right in front of the send exactly if the header has not been
deleted, if and only if it was not deleted in a branch only. -/
theorem checked_iff_not_deleted_iff (env : CompileEnv) (stream : String) (line : List Char)
    (first : HeaderDescriptor) (headers : List HeaderDescriptor)
    (actions before : List ConfAction)
    (hparse : parseActionsLine env stream line (first :: headers) = .ok actions)
    (httl : (protocolGetFieldByType first.id .ttl).isSome = true)
    (hpath : FirstSend actions before) :
    (Checked before ↔ ¬ FirstDeleted before) ↔ (FirstDeleted before → DeletedOutside before) := by
  rcases produces_parseActionsLine hparse with
    ⟨first', rest, as, s', hheaders, -, hproduces, rfl⟩
  cases hheaders
  rcases Option.isSome_iff_exists.mp httl with ⟨f, hf⟩
  have hinitial : (initialState stream (first :: headers) first).needsTtlcheck = some 0 ∧
      ∀ a ∈ (initialState stream (first :: headers) first).actions, a.ttlRole = .other := by
    simp only [initialState, headerGetFieldOfType, hf, Option.map_some, true_and]
    exact forall_mem_singleton.mpr rfl
  have hguards := guards_other hinitial.2 rfl (guards_of_produces hproduces
    (ttlState_initialState stream first headers)) before hpath
  have hsub : DeletedOutside before → FirstDeleted before :=
    fun h => (takeWhile_sublist _).subset h
  rw [hguards, hinitial.1]
  simp only [Option.isSome_some, true_and, Bool.false_eq_true, false_or, not_iff_not]
  exact ⟨fun h => h.mpr, fun h => ⟨hsub, h⟩⟩

/-- Up to `n` actions of a path that always goes into the first branch. -/
def walk : Nat → List ConfAction → Option (List ConfAction)
  | n + 1, a :: actions =>
    match a.body with
    | .send _ => some []
    | .repl d => d.pipelines.head?.bind fun br => (walk n br.actions).map (a :: ·)
    | body => if goesOn body = true then (walk n actions).map (a :: ·) else none
  | _, _ => none

theorem firstSend_walk {n : Nat} {actions : List ConfAction} (h : walk n actions = some before) :
    FirstSend actions before := by
  induction n generalizing actions before with
  | zero => cases h
  | succ n ih =>
    cases actions with
    | nil => cases h
    | cons a actions =>
      unfold walk at h
      split at h
      · rename_i hbody
        cases h
        exact .here a actions _ hbody
      · rename_i d hbody
        rcases Option.bind_eq_some_iff.mp h with ⟨br, hbr, h⟩
        rcases Option.map_eq_some_iff.mp h with ⟨before, hrest, rfl⟩
        exact .branch a actions before d br hbody (mem_of_head? hbr) (ih hrest)
      · rename_i hsend hrepl
        split at h
        · rename_i hgoes
          rcases Option.map_eq_some_iff.mp h with ⟨before, hrest, rfl⟩
          exact .next a actions before hsend hgoes (ih hrest)
        · cases h

theorem exists_of_walk {stream : String} {line : List Char} {headers : List HeaderDescriptor}
    {n : Nat} {p : List ConfAction → Bool}
    (h : ((parseActionsLine env stream line headers).toOption.bind (walk n)).any p = true) :
    ∃ actions before, parseActionsLine env stream line headers = .ok actions ∧
      FirstSend actions before ∧ p before = true := by
  rcases (Option.any_eq_true _ _).mp h with ⟨before, hbefore, hcheck⟩
  rcases Option.bind_eq_some_iff.mp hbefore with ⟨actions, hactions, hwalk⟩
  cases hparse : parseActionsLine env stream line headers with
  | error e =>
    rw [hparse] at hactions
    cases hactions
  | ok as =>
    rw [hparse] at hactions
    cases hactions
    exact ⟨actions, before, rfl, firstSend_walk hwalk, hcheck⟩

/-- Two lines: a stream that is replicated, and the branch that ends its tunnel. -/
def tunnelEnd : CompileEnv :=
  { oneInterface with
    streamsSec := fun name => if name = "b" then some "del mpls, send out".toList else none }

def labelHeaders : List HeaderDescriptor :=
  [⟨"mpls", .mpls, []⟩, ⟨"dcw", .dcw, []⟩]

/-- A packet that is sent on in its tunnel. -/
theorem checked_iff_not_deleted_iff_forwarded :
    ∃ actions before,
      parseActionsLine tunnelEnd "s" "send out".toList labelHeaders = .ok actions ∧
      FirstSend actions before ∧ ¬ FirstDeleted before ∧ Checked before := by
  have hwalk : ((parseActionsLine tunnelEnd "s" "send out".toList labelHeaders).toOption.bind
      (walk 10)).any (fun before => decide (¬ FirstDeleted before)) = true := by
    decide +kernel
  rcases exists_of_walk hwalk with ⟨actions, before, hparse, hpath, hcheck⟩
  have hkept := of_decide_eq_true hcheck
  refine ⟨actions, before, hparse, hpath, hkept, ?_⟩
  exact ((checked_iff_not_deleted_iff _ _ _ _ _ actions before hparse rfl hpath).mpr
    fun hdeleted => absurd hdeleted hkept).mpr hkept

/-- The tunnel is left in a branch, and its time to live is still checked. -/
theorem branchDel_keeps_check :
    ∃ actions before,
      parseActionsLine tunnelEnd "s" "replicate b".toList labelHeaders = .ok actions ∧
      (protocolGetFieldByType .mpls .ttl).isSome = true ∧ FirstSend actions before ∧
      Checked before ∧ FirstDeleted before := by
  have hwalk : ((parseActionsLine tunnelEnd "s" "replicate b".toList labelHeaders).toOption.bind
      (walk 10)).any (fun before => decide (Checked before ∧ FirstDeleted before)) = true := by
    decide +kernel
  rcases exists_of_walk hwalk with ⟨actions, before, hparse, hpath, hcheck⟩
  exact ⟨actions, before, hparse, by decide, hpath, of_decide_eq_true hcheck⟩

end Dnt
