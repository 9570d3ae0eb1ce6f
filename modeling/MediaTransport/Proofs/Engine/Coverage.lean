import Mathlib.Data.List.Forall2
import MediaTransport.Proofs.Codec.ReportScan
import MediaTransport.Proofs.Engine.Transparency
import MediaTransport.Proofs.Splice.Placement

/-!
# Extended reports on all that is received

Of a control packet on its way out, every report that has a source which is being received gets an
extended report with a block on each such source (`Answers`), if the other side takes those and
every report is complete. Otherwise no report gets one, and the packet goes out as it is. The
extended reports stand among the sub-packets of the packet, none behind a goodbye of its originator
(`Arranged`), and the store is passed all of them in the order of the reports
(`extendedReports_outgoing`).
-/

namespace MediaTransport

open Rtcp Quality

/-! ## Packets with reports added -/

/-- A sub-packet of a packet to which extended reports were added. -/
inductive Piece where
  | given (sub : Bytes)
  | added (x : ExtendedReport)

namespace Piece

def bytes : Piece → Bytes
  | given sub => sub
  | added x => x.encode

/-- The sub-packet that was there before. -/
def given? : Piece → Option Bytes
  | given sub => some sub
  | added _ => none

def added? : Piece → Option ExtendedReport
  | given _ => none
  | added x => some x

/-- A report does not stand behind a goodbye that lists its originator or cannot be parsed. -/
def MayPrecede : Piece → Piece → Prop
  | given sub, added x => Compound.farewell x.ssrc sub = false
  | _, _ => True

end Piece

open Piece

/-- The reports `xs` stand among the sub-packets `subs`, those of one originator in their order. -/
structure Arranged (xs : List ExtendedReport) (subs : List Bytes) (row : List Piece) : Prop where
  given : row.filterMap given? = subs
  added : ∀ ssrc, ExtendedReport.ofSource ssrc (row.filterMap added?) =
    ExtendedReport.ofSource ssrc xs
  farewells : row.Pairwise MayPrecede

/-- The places of added reports, of which `placeAll` shows the bytes. -/
def arrange : List ExtendedReport → List Bytes → List Piece
  | xs, [] => xs.map .added
  | xs, sub :: subs =>
    (xs.filter fun x => Compound.barred x.ssrc sub).map .added ++
      .given sub :: arrange (xs.filter fun x => !Compound.barred x.ssrc sub) subs

theorem map_bytes_arrange (xs : List ExtendedReport) (subs : List Bytes) :
    (arrange xs subs).map Piece.bytes = Compound.placeAll xs subs := by
  induction subs generalizing xs with
  | nil =>
    rw [arrange, List.map_map]
    rfl
  | cons sub subs ih =>
    rw [arrange, List.map_append, List.map_map, List.map_cons, ih]
    rfl

theorem filterMap_given?_map_added (xs : List ExtendedReport) :
    (xs.map Piece.added).filterMap given? = [] := by
  rw [List.filterMap_map, List.filterMap_eq_nil_iff]
  exact fun _ _ => rfl

theorem filterMap_added?_map_added (xs : List ExtendedReport) :
    (xs.map Piece.added).filterMap added? = xs := by
  rw [List.filterMap_map]
  exact List.filterMap_some

theorem pairwise_map_added (xs : List ExtendedReport) : (xs.map Piece.added).Pairwise MayPrecede :=
  List.pairwise_map.2 (List.pairwise_of_forall fun _ _ => trivial)

theorem mem_of_added_mem_arrange {x : ExtendedReport} {xs : List ExtendedReport} {subs : List Bytes}
    (h : .added x ∈ arrange xs subs) : x ∈ xs := by
  induction subs generalizing xs with
  | nil =>
    obtain ⟨y, hy, hxy⟩ := List.mem_map.1 h
    cases hxy
    exact hy
  | cons sub subs ih =>
    rw [arrange, List.mem_append, List.mem_cons] at h
    rcases h with hfront | hsub | hrest
    · obtain ⟨y, hy, hxy⟩ := List.mem_map.1 hfront
      cases hxy
      exact List.mem_of_mem_filter hy
    · cases hsub
    · exact List.mem_of_mem_filter (ih hrest)

theorem given_arrange (xs : List ExtendedReport) (subs : List Bytes) :
    (arrange xs subs).filterMap given? = subs := by
  induction subs generalizing xs with
  | nil => exact filterMap_given?_map_added xs
  | cons sub subs ih =>
    have hsub : given? (.given sub) = some sub := rfl
    rw [arrange, List.filterMap_append, filterMap_given?_map_added, List.nil_append,
      List.filterMap_cons_some hsub, ih]

theorem added_arrange (ssrc : Ssrc) (xs : List ExtendedReport) (subs : List Bytes) :
    ExtendedReport.ofSource ssrc ((arrange xs subs).filterMap added?) =
      ExtendedReport.ofSource ssrc xs := by
  induction subs generalizing xs with
  | nil => rw [arrange, filterMap_added?_map_added]
  | cons sub subs ih =>
    rw [arrange, List.filterMap_append, filterMap_added?_map_added, List.filterMap_cons_none rfl,
      ExtendedReport.ofSource_append, ih,
      ExtendedReport.ofSource_partition ssrc fun s => Compound.barred s sub]

theorem farewells_arrange (xs : List ExtendedReport) (subs : List Bytes) :
    (arrange xs subs).Pairwise MayPrecede := by
  induction subs generalizing xs with
  | nil => exact pairwise_map_added xs
  | cons sub subs ih =>
    rw [arrange, List.pairwise_append, List.pairwise_cons]
    refine ⟨pairwise_map_added _, ⟨fun piece hpiece => ?_, ih _⟩, fun piece hpiece later _ => ?_⟩
    · cases piece with
      | given other => trivial
      | added x =>
        have hpass := List.of_mem_filter (mem_of_added_mem_arrange hpiece)
        rw [Bool.not_eq_true', Compound.barred_eq_farewell] at hpass
        exact hpass
    · obtain ⟨x, -, rfl⟩ := List.mem_map.1 hpiece
      trivial

theorem arranged_arrange (xs : List ExtendedReport) (subs : List Bytes) :
    Arranged xs subs (arrange xs subs) :=
  ⟨given_arrange xs subs, fun ssrc => added_arrange ssrc xs subs, farewells_arrange xs subs⟩

/-! ## The reports that get extended reports -/

/-- What is left out of a list is what nothing comes of. -/
theorem forall₂_filter_of_filterMap {α β γ : Type} {R : α → γ → Prop} {S : β → γ → Prop}
    {f : α → Option β} {p : α → Bool} (hp : ∀ a, p a = (f a).isSome)
    (hR : ∀ a b c, f a = some b → S b c → R a c) {xs : List α} {ys : List γ}
    (h : List.Forall₂ S (xs.filterMap f) ys) : List.Forall₂ R (xs.filter p) ys := by
  induction xs generalizing ys with
  | nil =>
    cases h
    exact .nil
  | cons a xs ih =>
    cases hf : f a with
    | none =>
      have hout : ¬p a = true := by rw [hp, hf]; exact Bool.false_ne_true
      rw [List.filter_cons_of_neg hout]
      rw [List.filterMap_cons_none hf] at h
      exact ih h
    | some b =>
      have hin : p a = true := by rw [hp, hf]; rfl
      rw [List.filter_cons_of_pos hin]
      rw [List.filterMap_cons_some hf] at h
      cases h with
      | cons hb hrest => exact .cons (hR a b _ hf hb) (ih hrest)

theorem forall₂_filter_reduceOption {α β : Type} {R : α → β → Prop} {S : α → Option β → Prop}
    {p : α → Bool} (hp : ∀ a y?, S a y? → p a = y?.isSome) (hR : ∀ a y, S a (some y) → R a y)
    {xs : List α} {ys : List (Option β)} (h : List.Forall₂ S xs ys) :
    List.Forall₂ R (xs.filter p) ys.reduceOption := by
  induction h with
  | nil => exact .nil
  | @cons a y? xs ys ha _ ih =>
    have hkept := hp a y? ha
    cases y? with
    | none =>
      have hout : ¬p a = true := by rw [hkept]; exact Bool.false_ne_true
      rw [List.filter_cons_of_neg hout, List.reduceOption_cons_of_none]
      exact ih
    | some y =>
      rw [List.filter_cons_of_pos hkept, List.reduceOption_cons_of_some]
      exact .cons (hR a y ha) ih

namespace Engine

open StoreOperation Compound

/-- Whether a report is on a source that is being received. -/
def isReceiving (e : Engine) (r : ReportSources) : Bool :=
  r.sources.any fun source => (e.provider source r.sender).isSome

/-- A block with the statistics of a source. -/
def Describes (e : Engine) (sender source : Ssrc) (b : Block) : Prop :=
  ∃ stats m, e.provider source sender = some stats ∧
    voipBlock source stats (e.blockContext sender) = .ok m ∧ m.ssrc = source ∧ b = .voipMetrics m

/-- `x` is of the originator of a report and describes those of its sources that are being
received. -/
structure Answers (e : Engine) (r : ReportSources) (x : ExtendedReport) : Prop where
  ssrc : x.ssrc = r.sender
  blocks : List.Forall₂ (e.Describes r.sender)
    (r.sources.filter fun source => (e.provider source r.sender).isSome) x.blocks

variable {e : Engine} {r : ReportSources} {bytes : Bytes}

theorem isEmpty_receiveStreams (e : Engine) (r : ReportSources) :
    (e.receiveStreams r).isEmpty = !e.isReceiving r := by
  rw [Bool.eq_iff_iff, List.isEmpty_iff]
  simp only [receiveStreams, List.filterMap_eq_nil_iff, Option.map_eq_none_iff, isReceiving,
    Bool.not_eq_true', List.any_eq_false, Option.isSome_iff_ne_none, ne_eq, not_not]

theorem isReceiving_of_extendedReport? {x? : Option ExtendedReport}
    (h : e.extendedReport? r = .ok x?) : e.isReceiving r = x?.isSome := by
  obtain ⟨blocks, hblocks, rfl⟩ := extendedReport?_eq_ok_iff.1 h
  have hempty : blocks.isEmpty = !e.isReceiving r := by
    have hlength := (mapM_eq_ok_iff.1 hblocks).length_eq
    rw [← isEmpty_receiveStreams, Bool.eq_iff_iff, List.isEmpty_iff_length_eq_zero,
      List.isEmpty_iff_length_eq_zero, hlength]
  rw [hempty]
  cases e.isReceiving r <;> rfl

theorem answers_of_extendedReport? {x : ExtendedReport} (h : e.extendedReport? r = .ok (some x)) :
    e.Answers r x := by
  obtain ⟨blocks, hblocks, hx⟩ := extendedReport?_eq_ok_iff.1 h
  split at hx
  next => cases hx
  next =>
    cases hx
    refine ⟨rfl, forall₂_filter_of_filterMap (fun source => ?_) ?_ (mapM_eq_ok_iff.1 hblocks)⟩
    · rw [Option.isSome_map]
    · intro source stream b hsource hb
      obtain ⟨stats, hstats, rfl⟩ := Option.map_eq_some_iff.1 hsource
      obtain ⟨m, hm, rfl⟩ := Except.map_eq_ok_iff.1 hb
      exact ⟨stats, m, hstats, hm, ssrc_of_voipBlock hm, rfl⟩

theorem answers_generated {xs : List ExtendedReport} (hsends : e.config.sendsVoipMetrics = true)
    (hcomplete : ReportsComplete bytes) (h : e.generated bytes = .ok xs) :
    List.Forall₂ e.Answers ((namedReports bytes).filter e.isReceiving) xs := by
  obtain ⟨made, hmade, rfl⟩ := Except.map_eq_ok_iff.1 h
  rw [reportsToExtend, if_pos hsends, reportSources_of_complete hcomplete, Option.getD_some,
    mapM_eq_ok_iff] at hmade
  exact forall₂_filter_reduceOption (S := fun r x? => e.extendedReport? r = .ok x?)
    (fun r x? h => isReceiving_of_extendedReport? h) (fun r x h => answers_of_extendedReport? h)
    hmade

theorem generated_eq_nil (h : ¬(e.config.sendsVoipMetrics = true ∧ ReportsComplete bytes)) :
    e.generated bytes = .ok [] := by
  rw [generated, reportsToExtend]
  by_cases hsends : e.config.sendsVoipMetrics = true
  · rw [if_pos hsends, reportSources_eq_none fun hcomplete => h ⟨hsends, hcomplete⟩]
    rfl
  · rw [if_neg hsends]
    rfl

/-! ## Outgoing packets -/

variable {reactions : Reactions} {now : Instant} {p : Packet}

theorem store_outgoing {out : Passage} (hcontrol : isControl p.bytes = true)
    (h : e.outgoing reactions now p = .ok out) :
    out.engine.store = (e.store.applyAll reactions now out.operations).1 := by
  simp only [outgoing, hcontrol, if_true, bind, Except.bind] at h
  split at h
  next => cases h
  next =>
    cases h
    rfl

/-- Nothing comes of a control packet exactly when it reports on a source whose stream cannot be
rated. Otherwise it goes out with an extended report for every report on a source that is being
received, in front of the goodbyes of its originator, and the store is passed those reports in their
order. If they are not sent or a report is incomplete, there are none, and the packet goes out as it
is. -/
theorem extendedReports_outgoing (reactions : Reactions) (now : Instant) (e : Engine) {p : Packet}
    (hcontrol : isControl p.bytes = true) :
    (e.CannotRate p.bytes → e.outgoing reactions now p = .error .overflow) ∧
    (¬e.CannotRate p.bytes →
      ∃ out q xs row, e.outgoing reactions now p = .ok out ∧ out.packet = some q ∧
        extendedReports .sent out.operations = xs ∧
        out.engine.store = (e.store.applyAll reactions now out.operations).1 ∧
        q.bytes = (row.map Piece.bytes).flatten ++ trailing p.bytes ∧
        subPackets q.bytes = row.map Piece.bytes ∧
        Arranged xs (subPackets p.bytes) row ∧ (row.filterMap added?).Perm xs ∧
        (e.config.sendsVoipMetrics = true ∧ ReportsComplete p.bytes →
          List.Forall₂ e.Answers ((namedReports p.bytes).filter e.isReceiving) xs) ∧
        (¬(e.config.sendsVoipMetrics = true ∧ ReportsComplete p.bytes) → xs = [] ∧ q = p)) := by
  refine ⟨outgoing_of_cannotRate reactions now, fun hrate => ?_⟩
  obtain ⟨xs, q, hxs, -, hinserts, hwalk⟩ := exists_insertsAll_of_not_cannotRate p hrate
  obtain ⟨out, hout, hpacket, hoperations⟩ := outgoing_control reactions now hcontrol hxs hinserts
  have harranged := arranged_arrange xs (subPackets p.bytes)
  rw [← map_bytes_arrange] at hwalk
  have hsubs : subPackets q.bytes = (arrange xs (subPackets p.bytes)).map Piece.bytes :=
    congrArg Prod.fst hwalk
  have htrailing : (walk q.bytes).2 = trailing p.bytes := by rw [hwalk]
  refine ⟨out, q, xs, _, hout, hpacket, ?_, store_outgoing hcontrol hout, ?_, hsubs, harranged,
    ExtendedReport.perm_of_ofSource_eq harranged.added,
    fun h => answers_generated h.1 h.2 hxs, fun h => ?_⟩
  · rw [hoperations, extendedReports_append, extendedReports_map_extended,
      extendedReports_sentOperations, List.nil_append]
  · rw [← hsubs, ← htrailing]
    exact (flatten_walk q.bytes).symm
  · rw [generated_eq_nil h] at hxs
    cases hxs
    cases hinserts
    exact ⟨rfl, rfl⟩

/-- A sender report of 1 on source 2, a receiver report of 3 on no source, and the goodbyes of 1 and
3. -/
def leaving : List Bytes :=
  [[0x81, 200, 0, 12, 0, 0, 0, 1] ++ List.replicate 20 0 ++ [0, 0, 0, 2] ++ List.replicate 20 0,
    [0x80, 201, 0, 1, 0, 0, 0, 3], [0x81, 203, 0, 1, 0, 0, 0, 1], [0x81, 203, 0, 1, 0, 0, 0, 3]]

theorem extendedReports_outgoing_leaving :
    ∃ out q x m, talkative.outgoing (fun _ _ _ => []) 0 (.ofBytes leaving.flatten) = .ok out ∧
      out.packet = some q ∧ extendedReports .sent out.operations = [x] ∧ x.ssrc = ⟨1⟩ ∧
      x.blocks = [.voipMetrics m] ∧ m.ssrc = ⟨2⟩ ∧
      ∃ row, subPackets q.bytes = row.map Piece.bytes ∧ Arranged [x] leaving row := by
  have hsubs : subPackets (Packet.ofBytes leaving.flatten).bytes = leaving := by
    rw [Packet.bytes_ofBytes, ← List.append_nil leaving.flatten]
    exact subPackets_flatten_append (by decide) rfl
  have hcontrol : isControl (Packet.ofBytes leaving.flatten).bytes = true := by
    rw [isControl_iff, hsubs]
    exact List.cons_ne_nil _ _
  have hcomplete : ReportsComplete (Packet.ofBytes leaving.flatten).bytes := by
    unfold ReportsComplete
    rw [hsubs]
    decide
  have hreceived :
      (namedReports (Packet.ofBytes leaving.flatten).bytes).filter talkative.isReceiving =
        [⟨⟨1⟩, [⟨2⟩]⟩] := by
    rw [namedReports, hsubs]
    rfl
  obtain ⟨-, hgoes⟩ := extendedReports_outgoing (fun _ _ _ => []) 0 talkative hcontrol
  obtain ⟨out, q, xs, row, hout, hpacket, hpassed, -, -, hrow, harranged, -, hanswers, -⟩ :=
    hgoes (not_cannotRate_talkative _)
  have hall := hanswers ⟨rfl, hcomplete⟩
  rw [hreceived] at hall
  rw [hsubs] at harranged
  cases hall with
  | cons hx hrest =>
    cases hrest
    obtain ⟨hssrc, hblocks⟩ := hx
    have hsource :
        ([⟨2⟩] : List Ssrc).filter (fun source => (talkative.provider source ⟨1⟩).isSome) =
          [⟨2⟩] := rfl
    rw [hsource] at hblocks
    generalize hx : Rtcp.ExtendedReport.blocks _ = blocks at hblocks
    cases hblocks with
    | cons hb hnone =>
      cases hnone
      obtain ⟨stats, m, -, -, hm, rfl⟩ := hb
      exact ⟨out, q, _, m, hout, hpacket, hpassed, hssrc, hx, hm, row, hrow, harranged⟩

end Engine

end MediaTransport
