import FastLivo.Preprocess.Handlers
import FastLivo.Lib.OptionList

/-!
# The groups that `plane_judge` looks at

Where a group of points ends and whether it is a plane, from the coordinates of the ring alone.
`plane_judge` reads nothing outside of a ring that has eight more points behind the one it is asked
about, and answers with this end.
-/

set_option linter.unusedSectionVars false

namespace FastLivo.Preprocess

open Lib

variable {K : Type} [Zero K] [Add K] [Sub K] [Mul K] [Div K] [Neg K] [LT K] [LE K] [DecidableLT K]
  [DecidableLE K] [OfScientific K] (ops : FloatOps K) (cfg : Config K)

/-! ## A ring -/

/-- A ring: the coordinates of its points, and what the handler takes for the range of one. -/
structure ScanRing (K : Type) where
  points : List (Vec3 K)
  rangeOf : Vec3 K → K

namespace ScanRing

variable (ring : ScanRing K)

/-- The squares of the distances to the next point, of which the last one is never written. -/
def distas : List (Vec3 K) → List K
  | [] => []
  | [_] => [ops.uninit]
  | p :: q :: rest => (p.sub q).dot (p.sub q) :: distas (q :: rest)

/-- A point in the blind zone. -/
def blind (k : ℕ) : Bool := ring.points[k]?.any fun p => ring.rangeOf p < cfg.blindSqr

/-- The point of an index. -/
def pointAt (k : ℕ) : Vec3 K := ring.points.getD k .zero

/-- `group_dis`, squared. -/
def groupDis (i : ℕ) : K :=
  (cfg.disA * ring.rangeOf (ring.pointAt i) + cfg.disB) * (cfg.disA * ring.rangeOf (ring.pointAt i) + cfg.disB)

/-- A point that is too far from the first one of its group. -/
def far (i k : ℕ) : Bool :=
  ring.groupDis cfg i ≤ ((ring.pointAt k).sub (ring.pointAt i)).dot ((ring.pointAt k).sub (ring.pointAt i))

/-- Where the group of a point ends: at the first point in the blind zone, or behind the first eight
at the first one that is too far, or behind the last point. -/
def groupEnd (i : ℕ) : ℕ :=
  let first := firstStop (ring.blind cfg) groupSize i
  if first < i + groupSize then first
  else firstStop (fun k => ring.blind cfg k || ring.far cfg i k)
    (ring.points.length - (i + groupSize)) (i + groupSize)

/-- The largest square of a cross product. -/
def widest (cur v : Vec3 K) (l : List (Vec3 K)) : K :=
  l.foldl (fun width p =>
    let v2 := (p.sub cur).cross v
    if width < v2.dot v2 then v2.dot v2 else width) 0

/-- The tests on a group up to an end: on a line, and with even distances. -/
def IsFlat (i last : ℕ) : Prop :=
  let v := (ring.pointAt (min last (ring.points.length - 1))).sub (ring.pointAt i)
  let between := (ring.points.drop (i + 1)).take (last - (i + 1))
  let disarr := ((distas ops ring.points).drop i).take (last - i)
  ¬v.dot v * v.dot v / widest (ring.pointAt i) v between < cfg.p2lRatio ∧
    distancesEven cfg (sortDistances disarr.length disarr) = some true

/-- A plane: a group that does not end in the blind zone and passes the tests. -/
def IsPlane (i : ℕ) : Prop :=
  ring.blind cfg (ring.groupEnd cfg i) = false ∧ ring.IsFlat ops cfg i (ring.groupEnd cfg i)

end ScanRing

/-- The points of a line and its types are those of a ring. -/
structure ShapeOf (ring : ScanRing K) (pl : List (PointType K)) (types : List (OrgType K)) :
    Prop where
  points : pl.map PointType.vec = ring.points
  ranges : types.map OrgType.range = ring.points.map ring.rangeOf
  distas : types.map OrgType.dista = ScanRing.distas ops ring.points

section Shape

variable {ops cfg} {ring : ScanRing K} {pl : List (PointType K)} {types : List (OrgType K)}

theorem length_distas (l : List (Vec3 K)) : (ScanRing.distas ops l).length = l.length := by
  induction l with
  | nil => rfl
  | cons p l ih =>
    cases l with
    | nil => rfl
    | cons q rest => exact congrArg (· + 1) ih

theorem ShapeOf.length_pl (h : ShapeOf ops ring pl types) : pl.length = ring.points.length := by
  rw [← h.points, List.length_map]

theorem ShapeOf.length_types (h : ShapeOf ops ring pl types) :
    types.length = ring.points.length := by
  have hlength := congrArg List.length h.ranges
  rwa [List.length_map, List.length_map] at hlength

theorem getElem?_pointAt {k : ℕ} (hk : k < ring.points.length) :
    ring.points[k]? = some (ring.pointAt k) := by
  rw [ScanRing.pointAt, List.getD_eq_getElem?_getD, List.getElem?_eq_getElem hk, Option.getD_some]

/-- The point of an index. -/
theorem ShapeOf.point (h : ShapeOf ops ring pl types) {k : ℕ} (hk : k < ring.points.length) :
    ∃ p, pl[k]? = some p ∧ p.vec = ring.pointAt k := by
  have hget := getElem?_pointAt hk
  rw [← h.points, List.getElem?_map] at hget
  exact Option.map_eq_some_iff.mp hget

variable (cfg) in
/-- The type of an index. -/
theorem ShapeOf.type (h : ShapeOf ops ring pl types) {k : ℕ} (hk : k < ring.points.length) :
    ∃ t, types[k]? = some t ∧ t.range = ring.rangeOf (ring.pointAt k) ∧
      (t.range < cfg.blindSqr ↔ ring.blind cfg k) ∧
      (ScanRing.distas ops ring.points)[k]? = some t.dista := by
  have hk' : k < types.length := h.length_types ▸ hk
  have hrange := congrArg (·[k]?) h.ranges
  have hdista := congrArg (·[k]?) h.distas
  simp only [List.getElem?_map, List.getElem?_eq_getElem hk', getElem?_pointAt hk,
    Option.map_some, Option.some_inj] at hrange hdista
  refine ⟨types[k], List.getElem?_eq_getElem hk', hrange, ?_, hdista.symm⟩
  rw [ScanRing.blind, getElem?_pointAt hk, hrange]
  simp

/-! ## The loops -/

/-- The loop over the first points of a group. -/
theorem firstGroup_eq (h : ShapeOf ops ring pl types) {m i : ℕ} {disarr : List K}
    (hi : i + m ≤ ring.points.length) :
    firstGroup cfg types m i disarr = some (firstStop (ring.blind cfg) m i,
      if firstStop (ring.blind cfg) m i < i + m then none
      else some (disarr ++ ((ScanRing.distas ops ring.points).drop i).take m)) := by
  induction m generalizing i disarr with
  | zero => simp [firstGroup, firstStop]
  | succ m ih =>
    obtain ⟨t, ht, -, hblind, hdista⟩ := h.type cfg (show i < ring.points.length by omega)
    rw [firstGroup, firstStop, ht, Option.bind_eq_bind, Option.bind_some]
    by_cases hrange : t.range < cfg.blindSqr
    · rw [if_pos hrange, if_pos (hblind.mp hrange), if_pos (by omega)]
    · rw [if_neg hrange, if_neg (hblind.not.mp hrange), ih (by omega),
        show i + 1 + m = i + (m + 1) by omega, drop_of_getElem? hdista, List.take_succ_cons,
        List.append_assoc, List.singleton_append]

variable (cfg) in
/-- The loop that extends a group, over the points up to the last one. -/
theorem extendGroup_eq (h : ShapeOf ops ring pl types) (first : ℕ) {m i : ℕ} {v : Vec3 K}
    (twoDis : K) (disarr : List K) (hi : i + m = ring.points.length)
    (hv : m = 0 → v = (ring.pointAt (ring.points.length - 1)).sub (ring.pointAt first) ∧
      twoDis = v.dot v) :
    ∃ e, extendGroup cfg pl types (ring.pointAt first) (ring.groupDis cfg first) m i v twoDis
        disarr = some e ∧
      e.next = firstStop (fun k => ring.blind cfg k || ring.far cfg first k) m i ∧
      (ring.blind cfg e.next = true → e.disarr = none) ∧
      (ring.blind cfg e.next = false →
        e.disarr = some (disarr ++ ((ScanRing.distas ops ring.points).drop i).take (e.next - i)) ∧
        e.v = (ring.pointAt (min e.next (ring.points.length - 1))).sub (ring.pointAt first) ∧
        e.twoDis = e.v.dot e.v) := by
  induction m generalizing i v twoDis disarr with
  | zero =>
    refine ⟨_, rfl, rfl, fun hblind => ?_, fun _ => ⟨by simp, ?_, (hv rfl).2⟩⟩
    · have hnone : ring.points[i]? = none := List.getElem?_eq_none (by omega)
      rw [ScanRing.blind, hnone] at hblind
      cases hblind
    · have hlast : min i (ring.points.length - 1) = ring.points.length - 1 := by omega
      rw [(hv rfl).1, hlast]
  | succ m ih =>
    have hlt : i < ring.points.length := by omega
    obtain ⟨t, ht, -, hblind, hdista⟩ := h.type cfg hlt
    obtain ⟨p, hp, hvec⟩ := h.point hlt
    rw [extendGroup, firstStop, ht, Option.bind_eq_bind, Option.bind_some]
    by_cases hrange : t.range < cfg.blindSqr
    · have hstop := hblind.mp hrange
      rw [if_pos hrange, if_pos (by rw [hstop, Bool.true_or])]
      exact ⟨_, rfl, rfl, fun _ => rfl, fun hclear => absurd hstop (hclear ▸ Bool.false_ne_true)⟩
    · have hclear : ring.blind cfg i = false := Bool.eq_false_iff.mpr (hblind.not.mp hrange)
      rw [if_neg hrange, hp, Option.bind_eq_bind, Option.bind_some, hvec]
      by_cases hfar : ring.groupDis cfg first ≤ ((ring.pointAt i).sub (ring.pointAt first)).dot
          ((ring.pointAt i).sub (ring.pointAt first))
      · rw [if_pos hfar, if_pos (by rw [ScanRing.far, decide_eq_true hfar, Bool.or_true])]
        refine ⟨_, rfl, rfl, fun hblind => absurd hblind (hclear ▸ Bool.false_ne_true), fun _ =>
          ⟨?_, ?_, rfl⟩⟩
        · simp
        · have hinside : min i (ring.points.length - 1) = i := by omega
          rw [hinside]
      · rw [if_neg hfar, if_neg (by rw [hclear, ScanRing.far, decide_eq_false hfar]; decide)]
        have hlast (hm : m = 0) : (ring.pointAt i).sub (ring.pointAt first) =
            (ring.pointAt (ring.points.length - 1)).sub (ring.pointAt first) := by
          rw [show ring.points.length - 1 = i by omega]
        obtain ⟨e, he, hnext, hends, htests⟩ := ih (i := i + 1) _
          (disarr ++ [t.dista]) (by omega) fun hm => ⟨hlast hm, rfl⟩
        refine ⟨e, he, hnext, hends, fun hopen => ?_⟩
        obtain ⟨hdisarr, hvec', htwo⟩ := htests hopen
        have hle : i + 1 ≤ e.next := hnext ▸ le_firstStop _ m (i + 1)
        refine ⟨?_, hvec', htwo⟩
        rw [hdisarr, drop_of_getElem? hdista, show e.next - i = e.next - (i + 1) + 1 by omega,
          List.take_succ_cons, List.append_assoc, List.singleton_append]

/-- The width of a group is taken over points of the ring only. -/
theorem lengWid_eq (h : ShapeOf ops ring pl types) {last : ℕ} (i : ℕ) (cur v : Vec3 K)
    (hlast : last ≤ ring.points.length) :
    lengWid pl cur v ((List.range' (i + 1) (last - (i + 1))).filter (· < pl.length)) =
      some (ScanRing.widest cur v ((ring.points.drop (i + 1)).take (last - (i + 1)))) := by
  have hall : (List.range' (i + 1) (last - (i + 1))).filter (· < pl.length) =
      List.range' (i + 1) (last - (i + 1)) := by
    refine List.filter_eq_self.mpr fun j hj => ?_
    have hj' := List.mem_range'_1.mp hj
    have hlength := h.length_pl
    exact decide_eq_true (by omega)
  rw [hall, ScanRing.widest, ← h.points, ← List.map_drop, ← List.map_take, List.foldl_map]
  by_cases hfits : i + 1 ≤ last
  · exact foldlM_range'_read (by rw [h.length_pl]; omega)
  · rw [show last - (i + 1) = 0 by omega]
    rfl

theorem length_sortTurn (a : K) (l : List K) : (sortTurn a l).2.length = l.length := by
  induction l generalizing a with
  | nil => rfl
  | cons b l ih =>
    rw [sortTurn]
    split
    · exact congrArg (· + 1) (ih b)
    · exact congrArg (· + 1) (ih a)

theorem length_sortDistances (n : ℕ) (l : List K) : (sortDistances n l).length = l.length := by
  induction n generalizing l with
  | zero => cases l <;> rfl
  | succ n ih =>
    cases l with
    | nil => rfl
    | cons a l =>
      rw [sortDistances, List.length_cons, ih, length_sortTurn, List.length_cons]

variable (cfg) in
/-- The tests on two distances or more read none outside. -/
theorem isSome_distancesEven {disarr : List K} (h : 2 ≤ disarr.length) :
    (distancesEven cfg disarr).isSome := by
  have hlow : nextToLast disarr = some disarr[disarr.length - 2] := by
    rw [nextToLast, if_neg (by omega)]
    exact List.getElem?_eq_getElem (by omega)
  have hhigh : disarr[0]? = some disarr[0] := List.getElem?_eq_getElem (by omega)
  have hmid : disarr[disarr.length / 2]? = some disarr[disarr.length / 2] :=
    List.getElem?_eq_getElem (by omega)
  rw [distancesEven, hlow, hhigh, hmid, Option.bind_eq_bind, Option.bind_some]
  split
  · rfl
  · rw [Option.bind_some]
    split
    · rfl
    · rfl

/-! ## What `plane_judge` answers -/

variable (cfg) in
/-- A point with eight more behind it. -/
theorem planeJudge_eq (h : ShapeOf ops ring pl types) {i : ℕ}
    (hi : i + groupSize < ring.points.length) :
    ∃ g, planeJudge ops cfg pl types i = some g ∧ g.next = ring.groupEnd cfg i ∧
      (g.kind = 1 ↔ ring.IsPlane ops cfg i) := by
  have hlt : i < ring.points.length := by omega
  obtain ⟨t, ht, hrange, -, -⟩ := h.type cfg hlt
  obtain ⟨p, hp, hvec⟩ := h.point hlt
  rw [planeJudge, ht, Option.bind_eq_bind, Option.bind_some,
    firstGroup_eq h (by omega : i + groupSize ≤ ring.points.length), Option.bind_eq_bind,
    Option.bind_some]
  by_cases hfirst : firstStop (ring.blind cfg) groupSize i < i + groupSize
  · have hend : ring.groupEnd cfg i = firstStop (ring.blind cfg) groupSize i := if_pos hfirst
    have hstop : ring.blind cfg (ring.groupEnd cfg i) = true := hend ▸ stop_firstStop hfirst
    rw [if_pos hfirst]
    refine ⟨_, rfl, hend.symm, fun hkind => absurd hkind (Nat.succ_ne_self 1), fun hplane => ?_⟩
    exact absurd hstop (hplane.1 ▸ Bool.false_ne_true)
  · have hall : firstStop (ring.blind cfg) groupSize i = i + groupSize := by
      have := firstStop_le (ring.blind cfg) groupSize i
      omega
    have hend : ring.groupEnd cfg i = firstStop (fun k => ring.blind cfg k || ring.far cfg i k)
        (ring.points.length - (i + groupSize)) (i + groupSize) := if_neg hfirst
    obtain ⟨e, he, hnext, hends, htests⟩ := extendGroup_eq cfg h i
      (v := ⟨ops.uninit, ops.uninit, ops.uninit⟩) ops.uninit
      ([] ++ ((ScanRing.distas ops ring.points).drop i).take groupSize)
      (show i + groupSize + (ring.points.length - (i + groupSize)) = ring.points.length by omega)
      fun hm => by omega
    have hrun : ring.groupEnd cfg i = e.next := hend.trans hnext.symm
    have hle : i + groupSize ≤ e.next := hnext ▸ le_firstStop _ _ _
    have hinside : e.next ≤ ring.points.length := by
      have := firstStop_le (fun k => ring.blind cfg k || ring.far cfg i k)
        (ring.points.length - (i + groupSize)) (i + groupSize)
      omega
    rw [if_neg hfirst, hall, hp, h.length_pl, hrange]
    simp only [Option.bind_eq_bind, Option.bind_some]
    rw [hvec, show (cfg.disA * ring.rangeOf (ring.pointAt i) + cfg.disB) *
      (cfg.disA * ring.rangeOf (ring.pointAt i) + cfg.disB) = ring.groupDis cfg i from rfl, he,
      Option.bind_some]
    cases hclear : ring.blind cfg e.next with
    | true =>
      rw [hends hclear]
      refine ⟨_, rfl, hrun.symm, fun hkind => absurd hkind (Nat.succ_ne_self 1), fun hplane => ?_⟩
      exact absurd (hrun ▸ hclear) (hplane.1 ▸ Bool.false_ne_true)
    | false =>
      obtain ⟨hdisarr, hv, htwo⟩ := htests hclear
      have hwidth := lengWid_eq h i (ring.pointAt i) e.v hinside
      rw [h.length_pl] at hwidth
      have hgroup : [] ++ ((ScanRing.distas ops ring.points).drop i).take groupSize ++
          ((ScanRing.distas ops ring.points).drop (i + groupSize)).take (e.next - (i + groupSize)) =
          ((ScanRing.distas ops ring.points).drop i).take (e.next - i) := by
        rw [show e.next - i = groupSize + (e.next - (i + groupSize)) by omega, List.take_add,
          List.drop_drop, List.nil_append]
      have hmany : 2 ≤ (((ScanRing.distas ops ring.points).drop i).take (e.next - i)).length := by
        rw [List.length_take, List.length_drop, length_distas]
        have hsize : groupSize = 8 := rfl
        omega
      rw [hdisarr, hgroup, hwidth, htwo]
      simp only [Option.bind_some]
      have hplane : ring.IsPlane ops cfg i ↔ ring.IsFlat ops cfg i e.next := by
        rw [ScanRing.IsPlane, hrun, hclear, eq_self, true_and]
      rw [hplane, ScanRing.IsFlat, ← hv]
      generalize ((ScanRing.distas ops ring.points).drop i).take (e.next - i) = disarr at hmany ⊢
      rw [← length_sortDistances disarr.length disarr] at hmany
      obtain ⟨even, heven⟩ := Option.isSome_iff_exists.mp (isSome_distancesEven cfg hmany)
      rw [heven, Option.bind_some]
      split
      · rename_i hline
        exact ⟨_, rfl, hrun.symm, fun hkind => absurd hkind (Nat.zero_ne_one),
          fun hflat => absurd hline hflat.1⟩
      · rename_i hline
        cases even with
        | true => exact ⟨_, rfl, hrun.symm, fun _ => ⟨hline, rfl⟩, fun _ => rfl⟩
        | false => exact ⟨_, rfl, hrun.symm, fun hkind => absurd hkind (Nat.zero_ne_one),
          fun hflat => absurd (Option.some.inj hflat.2) Bool.false_ne_true⟩

end Shape

end FastLivo.Preprocess
