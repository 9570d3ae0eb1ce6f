import Mathlib.Data.List.Basic
import MediaTransport.Proofs.Splice.Extraction
import MediaTransport.Proofs.Splice.Insertion

/-!
# The round trip of a splice

An extraction after any number of insertions leaves what an extraction before them would have left
(`kept_placeAll`), and gives the reports that were there and the inserted ones, shuffled into each
other: only reports of different originators can change places (`exists_interleaving`).
-/

namespace MediaTransport

open Rtcp

/-- `cs` has the items of `as` and those of `bs`, each in their order. -/
inductive Interleaving {α : Type} : List α → List α → List α → Prop
  | nil : Interleaving [] [] []
  | left {a : α} {as bs cs : List α} : Interleaving as bs cs → Interleaving (a :: as) bs (a :: cs)
  | right {b : α} {as bs cs : List α} : Interleaving as bs cs → Interleaving as (b :: bs) (b :: cs)

namespace Interleaving

variable {α : Type} {as bs cs : List α}

theorem append_left (front : List α) (h : Interleaving as bs cs) :
    Interleaving (front ++ as) bs (front ++ cs) := by
  induction front with
  | nil => exact h
  | cons a front ih => exact .left ih

theorem perm (h : Interleaving as bs cs) : cs.Perm (as ++ bs) := by
  induction h with
  | nil => exact .nil
  | left _ ih => exact ih.cons _
  | right _ ih => exact (ih.cons _).trans List.perm_middle.symm

theorem eq_of_right_nil (h : Interleaving as [] cs) : cs = as := by
  generalize hbs : ([] : List α) = bs at h
  induction h with
  | nil => rfl
  | left _ ih => rw [ih hbs]
  | right _ _ => cases hbs

end Interleaving

namespace Rtcp.ExtendedReport

/-- The reports among `xs` of one originator. -/
def ofSource (ssrc : Ssrc) (xs : List ExtendedReport) : List ExtendedReport :=
  xs.filter fun x => x.ssrc = ssrc

theorem ofSource_append (ssrc : Ssrc) (xs ys : List ExtendedReport) :
    ofSource ssrc (xs ++ ys) = ofSource ssrc xs ++ ofSource ssrc ys :=
  List.filter_append ..

/-- A filter by originator keeps all the reports of one originator, or none. -/
theorem ofSource_filter (ssrc : Ssrc) (p : Ssrc → Bool) (xs : List ExtendedReport) :
    ofSource ssrc (xs.filter fun x => p x.ssrc) = if p ssrc then ofSource ssrc xs else [] := by
  unfold ofSource
  rw [List.filter_filter]
  by_cases h : p ssrc
  · rw [if_pos h]
    refine List.filter_congr fun x _ => ?_
    by_cases hx : x.ssrc = ssrc
    · rw [hx, h, Bool.and_true]
    · rw [decide_eq_false hx, Bool.false_and]
  · rw [if_neg h]
    refine List.filter_eq_nil_iff.2 fun x _ hx => ?_
    simp only [Bool.and_eq_true, decide_eq_true_eq] at hx
    exact h (hx.1 ▸ hx.2)

/-- To part reports by their originators leaves those of one originator together. -/
theorem ofSource_partition (ssrc : Ssrc) (p : Ssrc → Bool) (xs : List ExtendedReport) :
    ofSource ssrc (xs.filter fun x => p x.ssrc) ++ ofSource ssrc (xs.filter fun x => !p x.ssrc) =
      ofSource ssrc xs := by
  rw [ofSource_filter, ofSource_filter ssrc fun s => !p s]
  cases p ssrc with
  | false => rfl
  | true => exact List.append_nil _

/-- Lists that agree on every originator have the same reports. -/
theorem perm_of_ofSource_eq {xs ys : List ExtendedReport}
    (h : ∀ ssrc, ofSource ssrc xs = ofSource ssrc ys) : xs.Perm ys := by
  refine List.perm_iff_count.2 fun x => ?_
  have hcount : ∀ zs, (ofSource x.ssrc zs).count x = zs.count x := fun zs =>
    List.count_filter (decide_eq_true rfl)
  rw [← hcount xs, ← hcount ys, h]

end Rtcp.ExtendedReport

namespace Rtcp.Compound

open ExtendedReport

theorem filterMap_map_encode {xs : List ExtendedReport} (hxs : ∀ x ∈ xs, x.WellFormed) :
    (xs.map encode).filterMap extendedReport? = xs := by
  rw [List.filterMap_map]
  have hsome : ∀ x ∈ xs, (extendedReport? ∘ encode) x = some x := fun x hx =>
    extendedReport?_encode (hxs x hx)
  rw [List.filterMap_congr hsome, List.filterMap_some]

theorem kept_map_encode {xs : List ExtendedReport} (hxs : ∀ x ∈ xs, x.WellFormed) :
    kept (xs.map encode) = [] := by
  refine List.filter_eq_nil_iff.2 fun sub hsub => ?_
  obtain ⟨x, hx, rfl⟩ := List.mem_map.1 hsub
  rw [extendedReport?_encode (hxs x hx)]
  exact Bool.false_ne_true

/-- What an extraction leaves does not depend on the reports that were inserted. -/
theorem kept_placeAll {xs : List ExtendedReport} (hxs : ∀ x ∈ xs, x.WellFormed)
    (subs : List Bytes) : kept (placeAll xs subs) = kept subs := by
  induction subs generalizing xs with
  | nil => exact kept_map_encode hxs
  | cons sub subs ih =>
    have hfilter : ∀ p : ExtendedReport → Bool, ∀ x ∈ xs.filter p, x.WellFormed :=
      fun p x hx => hxs x (List.mem_of_mem_filter hx)
    have hbarred := kept_map_encode (hfilter fun x => barred x.ssrc sub)
    have hothers := ih (hfilter fun x => !barred x.ssrc sub)
    calc kept (placeAll xs (sub :: subs))
        = kept [sub] ++ kept (placeAll (xs.filter fun x => !barred x.ssrc sub) subs) := by
          rw [placeAll, kept_append, hbarred, List.nil_append, ← List.singleton_append, kept_append]
      _ = kept (sub :: subs) := by
          rw [hothers, ← kept_append, List.singleton_append]

/-- The inserted reports come out shuffled into those that were there, and of each originator in the
order in which they were inserted. -/
theorem exists_interleaving {xs : List ExtendedReport} (hxs : ∀ x ∈ xs, x.WellFormed)
    (subs : List Bytes) :
    ∃ added, Interleaving added (subs.filterMap extendedReport?)
        ((placeAll xs subs).filterMap extendedReport?) ∧
      ∀ ssrc, ofSource ssrc added = ofSource ssrc xs := by
  induction subs generalizing xs with
  | nil =>
    refine ⟨xs, ?_, fun ssrc => rfl⟩
    rw [placeAll, filterMap_map_encode hxs]
    have hall := Interleaving.append_left xs .nil
    rwa [List.append_nil] at hall
  | cons sub subs ih =>
    have hfilter : ∀ p : ExtendedReport → Bool, ∀ x ∈ xs.filter p, x.WellFormed :=
      fun p x hx => hxs x (List.mem_of_mem_filter hx)
    have hbarred := filterMap_map_encode (hfilter fun x => barred x.ssrc sub)
    obtain ⟨added, hadded, horder⟩ := ih (hfilter fun x => !barred x.ssrc sub)
    refine ⟨(xs.filter fun x => barred x.ssrc sub) ++ added, ?_, fun ssrc => ?_⟩
    · rw [placeAll, List.filterMap_append, hbarred]
      refine .append_left _ ?_
      cases hsub : extendedReport? sub with
      | none =>
        rw [List.filterMap_cons_none hsub, List.filterMap_cons_none hsub]
        exact hadded
      | some x =>
        rw [List.filterMap_cons_some hsub, List.filterMap_cons_some hsub]
        exact .right hadded
    · -- A sub-packet bars all the reports of an originator, or none of them.
      rw [ofSource_append, horder, ofSource_partition ssrc fun s => barred s sub]

end Rtcp.Compound

namespace Packet

open Compound ExtendedReport

/-- An extraction after insertions against one before: the bytes that it leaves, and the reports. -/
theorem extractReports_of_walk {p q : Packet} {xs : List ExtendedReport}
    (hxs : ∀ x ∈ xs, x.WellFormed)
    (hq : walk q.bytes = (placeAll xs (subPackets p.bytes), trailing p.bytes)) :
    q.extractReports.1.bytes = p.extractReports.1.bytes ∧
      ∃ added, Interleaving added p.extractReports.2 q.extractReports.2 ∧
        ∀ ssrc, ofSource ssrc added = ofSource ssrc xs := by
  have hsubs : subPackets q.bytes = placeAll xs (subPackets p.bytes) := congrArg Prod.fst hq
  have htrailing : trailing q.bytes = trailing p.bytes := by
    show (walk q.bytes).2 = _
    rw [hq]
  constructor
  · rw [bytes_extractReports, bytes_extractReports, hsubs, htrailing, kept_placeAll hxs]
  · rw [reports_extractReports, reports_extractReports, hsubs]
    exact exists_interleaving hxs (subPackets p.bytes)

/-- Well-formed reports that are put into a packet all go in, and an extraction gives them back and
leaves the packet as an extraction before would have. Each originator's reports come out in the
order in which they went in. -/
theorem extractReports_insertsAll (p : Packet) {xs : List ExtendedReport} (hne : xs ≠ [])
    (hxs : ∀ x ∈ xs, x.WellFormed) :
    ∃ q, p.InsertsAll xs q ∧
      q.extractReports.1.bytes = p.extractReports.1.bytes ∧
      ((∀ sub ∈ subPackets p.bytes, extendedReport? sub = none) →
        q.extractReports.1.bytes = p.bytes) ∧
      q.extractReports.2 ≠ [] ∧
      q.extractReports.2.Perm (xs ++ p.extractReports.2) ∧
      ∃ added, Interleaving added p.extractReports.2 q.extractReports.2 ∧
        ∀ ssrc, ofSource ssrc added = ofSource ssrc xs := by
  obtain ⟨q, hinserts, hwalk⟩ := p.walk_insertsAll fun x hx => (hxs x hx).toEncodable
  obtain ⟨hbytes, added, hadded, horder⟩ := extractReports_of_walk hxs hwalk
  have hperm : q.extractReports.2.Perm (xs ++ p.extractReports.2) :=
    hadded.perm.trans ((perm_of_ofSource_eq horder).append_right _)
  refine ⟨q, hinserts, hbytes, fun hnone => ?_, fun hnil => ?_, hperm, added, hadded, horder⟩
  · rw [hbytes, bytes_extractReports_of_none hnone]
  · rw [hnil] at hperm
    exact hne (List.append_eq_nil_iff.1 hperm.nil_eq.symm).1

/-- A receiver report and the goodbye of its originator, behind one byte of headroom. -/
def leaving : Packet :=
  .ofBuffer [0, 0x80, 201, 0, 1, 0, 0, 0, 1, 0x81, 203, 0, 1, 0, 0, 0, 1] 1 16

/-- Three reports, two of them of the originator that leaves. -/
def probes : List ExtendedReport :=
  [⟨⟨1⟩, [.referenceTime ⟨7⟩]⟩, ⟨⟨2⟩, []⟩,
    ⟨⟨1⟩, [.delays [⟨⟨3⟩, 4, 5⟩], .unknown ⟨9, 0, [1, 2, 3, 4]⟩]⟩]

theorem extractReports_insertsAll_leaving :
    ∃ q, leaving.InsertsAll probes q ∧ q.extractReports.1.bytes = leaving.extractReports.1.bytes ∧
      q.extractReports.2.Perm (probes ++ leaving.extractReports.2) := by
  obtain ⟨q, hinserts, hbytes, -, -, hperm, -⟩ :=
    @extractReports_insertsAll leaving probes (by decide) (by decide)
  exact ⟨q, hinserts, hbytes, hperm⟩

end Packet

end MediaTransport
