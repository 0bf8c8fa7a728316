import Iputils.AnchorAudit
import Iputils.SampleStatistics

/-!
# The centroid of baudit

`weighted_centroid` takes the mean of the latitudes and of the longitudes of the
anchors, each with the weight 1/radius. Longitudes are numbers to it, not points of a
circle. Where the anchors stand on both sides of the cut, the mean of their longitudes
may fall anywhere between them. Doubles are kept exact here.
-/
set_option autoImplicit false

namespace Iputils.Centroid
open AnchorAudit SampleStatistics

/-- The variables of the loop. -/
structure Sums where
  wlat : ℚ := 0
  wlon : ℚ := 0
  wtot : ℚ := 0
deriving Repr, DecidableEq

def Sums.add (s : Sums) (p : Anchor ℚ × ℚ) : Sums :=
  if p.2 ≤ 0 then s
  else
    let w := 1 / p.2
    ⟨s.wlat + p.1.lat * w, s.wlon + p.1.lon * w, s.wtot + w⟩

structure Point where
  lat : ℚ
  lon : ℚ
deriving Repr, DecidableEq

def weightedCentroid (anchors : List (Anchor ℚ)) (radii : List ℚ) : Point :=
  let s := (anchors.zip radii).foldl Sums.add {}
  if s.wtot > 0 then ⟨s.wlat / s.wtot, s.wlon / s.wtot⟩ else ⟨0, 0⟩

/-- The longitude is in the arc of width `w` from `a` on, up to whole turns. -/
def InArc (a w lon : ℚ) : Prop := ∃ k : ℤ, a + 360 * k ≤ lon ∧ lon ≤ a + w + 360 * k

/-- The point is among the anchors: in their arc, and between their latitudes. -/
structure Among (anchors : List (Anchor ℚ)) (a w : ℚ) (p : Point) : Prop where
  lon : InArc a w p.lon
  south : ∃ q ∈ anchors, q.lat ≤ p.lat
  north : ∃ q ∈ anchors, p.lat ≤ q.lat

/-- Radii for these anchors. -/
structure Radii (anchors : List (Anchor ℚ)) (radii : List ℚ) : Prop where
  length : radii.length = anchors.length
  pos : ∀ r ∈ radii, 0 < r

/-- All longitudes are in the same turn of the arc. -/
def OneTurn (anchors : List (Anchor ℚ)) (a w : ℚ) : Prop :=
  ∃ k : ℤ, ∀ p ∈ anchors, a + 360 * k ≤ p.lon ∧ p.lon ≤ a + w + 360 * k

section Loop
variable {anchors : List (Anchor ℚ)} {radii : List ℚ}

/-- `1.0 / radii[i]` -/
def weight (p : Anchor ℚ × ℚ) : ℚ := 1 / p.2

theorem foldl_add {ps : List (Anchor ℚ × ℚ)} (h : ∀ p ∈ ps, 0 < p.2) (s : Sums) :
    ps.foldl Sums.add s =
      ⟨s.wlat + (ps.map fun p => p.1.lat * weight p).sum,
        s.wlon + (ps.map fun p => p.1.lon * weight p).sum, s.wtot + (ps.map weight).sum⟩ := by
  induction ps generalizing s with
  | nil => simp
  | cons p ps ih =>
      have hp := h p List.mem_cons_self
      rw [List.foldl_cons, ih fun q hq => h q (List.mem_cons_of_mem p hq), Sums.add,
        if_neg hp.not_ge]
      simp only [List.map_cons, List.sum_cons, weight, add_assoc]

theorem Radii.zip_ne_nil (h : Radii anchors radii) (hne : anchors ≠ []) :
    anchors.zip radii ≠ [] := by
  intro hnil
  have hlen := congrArg List.length hnil
  rw [List.length_zip, h.length, min_self] at hlen
  exact hne (List.length_eq_zero_iff.mp hlen)

theorem Radii.weight_pos (h : Radii anchors radii) : ∀ p ∈ anchors.zip radii, 0 < weight p :=
  fun p hp => one_div_pos.mpr (h.pos p.2 (List.of_mem_zip hp).2)

/-- For positive radii the loop computes two weighted means. -/
theorem weightedCentroid_eq (h : Radii anchors radii) (hne : anchors ≠ []) :
    weightedCentroid anchors radii =
      ⟨weightedMean weight (fun p => p.1.lat) (anchors.zip radii),
        weightedMean weight (fun p => p.1.lon) (anchors.zip radii)⟩ := by
  have hpos : ∀ p ∈ anchors.zip radii, 0 < p.2 := fun p hp => h.pos p.2 (List.of_mem_zip hp).2
  have htot := sum_weights_pos (h.zip_ne_nil hne) h.weight_pos
  unfold weightedCentroid
  simp only [foldl_add hpos, zero_add]
  exact if_pos htot

end Loop

section Turns
variable {anchors : List (Anchor ℚ)} {a w : ℚ}

/-- Whatever the radii are, the mean of a coordinate stays within its bounds. -/
theorem among_of_oneTurn (hne : anchors ≠ []) (hturn : OneTurn anchors a w) {radii : List ℚ}
    (h : Radii anchors radii) : Among anchors a w (weightedCentroid anchors radii) := by
  obtain ⟨k, hk⟩ := hturn
  have hzip := h.zip_ne_nil hne
  rw [weightedCentroid_eq h hne]
  refine ⟨⟨k, ?_, ?_⟩, ?_, ?_⟩
  · exact le_weightedMean hzip h.weight_pos fun p hp => (hk p.1 (List.of_mem_zip hp).1).1
  · exact weightedMean_le hzip h.weight_pos fun p hp => (hk p.1 (List.of_mem_zip hp).1).2
  · obtain ⟨p, hp, hle⟩ := exists_le_weightedMean (x := fun p : Anchor ℚ × ℚ => p.1.lat) hzip
      h.weight_pos
    exact ⟨p.1, (List.of_mem_zip hp).1, hle⟩
  · obtain ⟨p, hp, hle⟩ := exists_weightedMean_le (x := fun p : Anchor ℚ × ℚ => p.1.lat) hzip
      h.weight_pos
    exact ⟨p.1, (List.of_mem_zip hp).1, hle⟩

/-- The middle of the gap behind turn `k` of the arc. -/
def gapMiddle (a w : ℚ) (k : ℤ) : ℚ := a + w + 360 * k + (360 - w) / 2

theorem not_inArc_gapMiddle (hw : w < 180) (k : ℤ) : ¬ InArc a w (gapMiddle a w k) := by
  rintro ⟨j, hlow, hhigh⟩
  unfold gapMiddle at hlow hhigh
  rcases lt_or_ge k j with hlt | hge
  · have hstep : (k : ℚ) + 1 ≤ j := by exact_mod_cast hlt
    linarith
  · have hstep : (j : ℚ) ≤ k := by exact_mod_cast hge
    linarith

/-- Radii that put the mean longitude on a point between two anchors. -/
theorem exists_radii {g : ℚ} (hbelow : ∃ p ∈ anchors, p.lon < g)
    (habove : ∃ p ∈ anchors, g < p.lon) :
    ∃ radii, Radii anchors radii ∧ (weightedCentroid anchors radii).lon = g := by
  obtain ⟨hpos, hmean⟩ := weightedMean_balance (x := fun p : Anchor ℚ => p.lon) hbelow habove
  generalize hb : balance g (fun p : Anchor ℚ => p.lon) anchors = b at hpos hmean
  have hradii : Radii anchors (anchors.map fun p => 1 / b p) := by
    refine ⟨List.length_map _, fun r hr => ?_⟩
    obtain ⟨p, -, rfl⟩ := List.mem_map.mp hr
    exact one_div_pos.mpr (hpos p)
  have hne : anchors ≠ [] := by
    obtain ⟨p, hp, -⟩ := hbelow
    exact List.ne_nil_of_mem hp
  refine ⟨_, hradii, ?_⟩
  have hzip : anchors.zip (anchors.map fun p => 1 / b p) = anchors.map fun p => (p, 1 / b p) := by
    simpa using List.zip_map' (f := id) (g := fun p => 1 / b p) (l := anchors)
  rw [weightedCentroid_eq hradii hne, hzip, ← hmean]
  simp [weightedMean, weight, Function.comp_def]

end Turns

/-- The centroid is among the anchors for all radii exactly when their longitudes are
in one turn of the arc: none of them is a turn further on than another. -/
theorem centroid_among_iff {anchors : List (Anchor ℚ)} (hne : anchors ≠ []) {a w : ℚ}
    (hw : w < 180) (harc : ∀ p ∈ anchors, InArc a w p.lon) :
    (∀ radii, Radii anchors radii → Among anchors a w (weightedCentroid anchors radii)) ↔
      OneTurn anchors a w := by
  constructor
  · intro hall
    by_contra hturn
    obtain ⟨p, hp⟩ := List.exists_mem_of_ne_nil anchors hne
    obtain ⟨k, hk⟩ := harc p hp
    obtain ⟨q, hq, hqk⟩ : ∃ q ∈ anchors, ¬ (a + 360 * k ≤ q.lon ∧ q.lon ≤ a + w + 360 * k) := by
      by_contra hnone
      exact hturn ⟨k, fun q hq => not_not.mp fun hout => hnone ⟨q, hq, hout⟩⟩
    obtain ⟨j, hj⟩ := harc q hq
    have hgap : ∃ i : ℤ, (∃ p ∈ anchors, p.lon < gapMiddle a w i) ∧
        ∃ q ∈ anchors, gapMiddle a w i < q.lon := by
      unfold gapMiddle
      rcases lt_trichotomy k j with hlt | rfl | hgt
      · have hstep : (k : ℚ) + 1 ≤ j := by exact_mod_cast hlt
        exact ⟨k, ⟨p, hp, by linarith [hk.2]⟩, q, hq, by linarith [hj.1]⟩
      · exact absurd hj hqk
      · have hstep : (j : ℚ) + 1 ≤ k := by exact_mod_cast hgt
        exact ⟨j, ⟨q, hq, by linarith [hj.2]⟩, p, hp, by linarith [hk.1]⟩
    obtain ⟨i, hbelow, habove⟩ := hgap
    obtain ⟨radii, hradii, hlon⟩ := exists_radii hbelow habove
    have hin := (hall radii hradii).lon
    rw [hlon] at hin
    exact not_inArc_gapMiddle hw i hin
  · intro hturn radii h
    exact among_of_oneTurn hne hturn h

/-- An anchor with this position. -/
def anchorAt (lat lon : ℚ) : Anchor ℚ := ⟨lat, lon, 10, [], true⟩

theorem centroid_among_europe :
    Among [anchorAt 51 0, anchorAt 48 2] 0 2
      (weightedCentroid [anchorAt 51 0, anchorAt 48 2] [1000, 500]) := by
  refine (centroid_among_iff (by simp) (by norm_num) ?_).mpr ?_ _ ⟨rfl, by simp⟩
  · intro p hp
    refine ⟨0, ?_⟩
    rcases List.mem_cons.mp hp with rfl | hp
    · norm_num [anchorAt]
    · rw [List.mem_singleton.mp hp]
      norm_num [anchorAt]
  · refine ⟨0, fun p hp => ?_⟩
    rcases List.mem_cons.mp hp with rfl | hp
    · norm_num [anchorAt]
    · rw [List.mem_singleton.mp hp]
      norm_num [anchorAt]

/-- Two anchors near the meridian of 180 degrees, and their centroid on the other side
of the earth. -/
theorem centroid_across_cut :
    (∀ p ∈ [anchorAt (-17) 179, anchorAt (-14) (-179)], InArc 179 2 p.lon) ∧
    weightedCentroid [anchorAt (-17) 179, anchorAt (-14) (-179)] [1000, 1000] = ⟨-31 / 2, 0⟩ ∧
    ¬ Among [anchorAt (-17) 179, anchorAt (-14) (-179)] 179 2
      (weightedCentroid [anchorAt (-17) 179, anchorAt (-14) (-179)] [1000, 1000]) := by
  have hcentroid : weightedCentroid [anchorAt (-17) 179, anchorAt (-14) (-179)] [1000, 1000] =
      ⟨-31 / 2, 0⟩ := by decide +kernel
  refine ⟨?_, hcentroid, fun h => ?_⟩
  · intro p hp
    rcases List.mem_cons.mp hp with rfl | hp
    · exact ⟨0, by norm_num [anchorAt]⟩
    · rw [List.mem_singleton.mp hp]
      exact ⟨-1, by norm_num [anchorAt]⟩
  · obtain ⟨k, hlow, hhigh⟩ := h.lon
    rw [hcentroid] at hlow hhigh
    have hk₀ : k < 0 := by
      by_contra hk
      have hk' : (0 : ℚ) ≤ k := by exact_mod_cast not_lt.mp hk
      linarith
    have hk₁ : (k : ℚ) ≤ -1 := by exact_mod_cast Int.le_sub_one_of_lt hk₀
    linarith

end Iputils.Centroid
