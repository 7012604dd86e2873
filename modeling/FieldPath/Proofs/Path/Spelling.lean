import FieldPath.Path.Spelling
import FieldPath.Proofs.Text.Dotted
import Mathlib.Data.List.Nodup

/-!
# The longest spelling of a class name

How many segments of a path spell a class name is found in one of two ways, by counting bytes or by
comparing segments from the longest run down.  Both find the same thing: the longest leading run of
the path that the name ends with.

## Main definitions

* `Spells` — a leading run of a path is the end of a name.
* `LongestSpelling` — and no longer run is.

## Main results

* `spelledSegments_cases` — **the segments that are counted are the longest spelling**, and nothing
  is counted only if there is none.
* `LongestSpelling.suffixRun_eq` — the comparison of segments finds the longest spelling by itself.
* `Spells.eq_of_nodup` — a name that repeats no segment has one spelling at most.
-/

namespace FieldPath

/-- The first `count` segments of the path are the last segments of the name. -/
structure Spells (path name : List String) (count : Nat) : Prop where
  /-- There is at least one of them. -/
  pos : 0 < count
  /-- The path has as many. -/
  le : count ≤ path.length
  /-- The name ends with them. -/
  suffix : path.take count <:+ name

/-- The first `count` segments are the last ones of the name, and no longer run of them is. -/
structure LongestSpelling (path name : List String) (count : Nat) : Prop where
  /-- The run spells the name. -/
  spells : Spells path name count
  /-- Every run that does is as short. -/
  le_of_spells : ∀ c, Spells path name c → c ≤ count

variable {path name : List String} {count c : Nat}

namespace Spells

theorem le_name (h : Spells path name count) : count ≤ name.length := by
  have hlen := h.suffix.length_le
  rwa [List.length_take_of_le h.le] at hlen

/-- The end of the name, cut off by its length. -/
theorem iff_drop (hpos : 0 < count) (hle : count ≤ path.length) :
    Spells path name count ↔ name.drop (name.length - count) = path.take count := by
  have hlen : (path.take count).length = count := List.length_take_of_le hle
  constructor
  · intro h
    have hdrop := List.suffix_iff_eq_drop.mp h.suffix
    rw [hlen] at hdrop
    exact hdrop.symm
  · intro h
    exact ⟨hpos, hle, h ▸ List.drop_suffix _ _⟩

/-- Of two spellings the shorter one starts the longer, and both end the name; so the first segment
of the path stands in the name twice. -/
theorem eq_of_nodup (h : Spells path name count) (h' : Spells path name c) (hn : name.Nodup) :
    count = c := by
  have hfirst : ∀ {k}, Spells path name k → name[name.length - k]? = path[0]? := by
    intro k hk
    have hdrop := (iff_drop hk.pos hk.le).mp hk
    rw [← List.head?_drop, hdrop, List.head?_take, if_neg (by have := hk.pos; omega),
      List.head?_eq_getElem?]
  have hpos := h.pos
  have hpos' := h'.pos
  have hle := h.le_name
  have hle' := h'.le_name
  have hlt : name.length - count < name.length := by omega
  have hindex := (List.getElem?_inj hlt hn).mp ((hfirst h).trans (hfirst h').symm)
  omega

end Spells

/-! ### Counting -/

/-- The search from `count` down finds the longest spelling up to there. -/
theorem suffixRun_cases (path name : List String) (hp : count ≤ path.length) :
    (∃ k, suffixRun path name count = some k ∧ Spells path name k ∧
      ∀ c, c ≤ count → Spells path name c → c ≤ k) ∨
      suffixRun path name count = none ∧ ∀ c, c ≤ count → ¬ Spells path name c := by
  induction count with
  | zero =>
    refine Or.inr ⟨rfl, fun c hc h => ?_⟩
    have := h.pos
    omega
  | succ count ih =>
    rw [suffixRun]
    split
    · next heq =>
      exact Or.inl ⟨count + 1, rfl, (Spells.iff_drop (Nat.succ_pos _) hp).mpr heq,
        fun c hc _ => hc⟩
    · next hne =>
      -- the longest candidate fails, and what spells the name is among the shorter ones
      have hno : ¬ Spells path name (count + 1) :=
        fun h => hne ((Spells.iff_drop (Nat.succ_pos _) hp).mp h)
      have hdown : ∀ {c}, c ≤ count + 1 → Spells path name c → c ≤ count := by
        intro c hc h
        rcases Nat.lt_or_eq_of_le hc with hc | rfl
        · omega
        · exact absurd h hno
      rcases ih (Nat.le_of_succ_le hp) with ⟨k, hk, hs, hmax⟩ | ⟨hnone, hnot⟩
      · exact Or.inl ⟨k, hk, hs, fun c hc h => hmax c (hdown hc h) h⟩
      · exact Or.inr ⟨hnone, fun c hc h => hnot c (hdown hc h) h⟩

theorem fittingRun_le (limit : Nat) (segments : List String) :
    ∀ start, fittingRun limit start segments ≤ segments.length := by
  induction segments with
  | nil => exact fun _ => Nat.le_refl 0
  | cons segment rest ih =>
    intro start
    simp only [fittingRun]
    split
    · exact Nat.zero_le _
    · exact Nat.succ_le_succ (ih _)

/-- What the bytes count are as many segments as the path has, and they are the name. -/
theorem fullRun?_eq_some {n : ClassName} (h : fullRun? path n = some count) :
    0 < count ∧ count ≤ path.length ∧ ClassName.ofSegments (path.take count) = n := by
  simp only [fullRun?] at h
  split at h
  · next hfull =>
    rw [← Option.some.inj h]
    exact ⟨hfull.2.1, fittingRun_le _ _ _, hfull.2.2⟩
  · simp at h

/-- A spelling of the whole name is the longest. -/
theorem longest_of_fullRun? {n : ClassName} (hp : ∀ s ∈ path, Dotted.Plain s)
    (h : fullRun? path n = some count) : LongestSpelling path n.segments count := by
  obtain ⟨hpos, hle, hname⟩ := fullRun?_eq_some h
  have hlen : (path.take count).length = count := List.length_take_of_le hle
  have hne : path.take count ≠ [] := by
    intro hnil
    rw [hnil, List.length_nil] at hlen
    omega
  have hsegments : n.segments = path.take count := by
    rw [← hname]
    exact Dotted.split_join hne fun s hs => hp s (List.mem_of_mem_take hs)
  refine ⟨⟨hpos, hle, hsegments ▸ List.suffix_rfl⟩, fun c hc => ?_⟩
  have hname := hc.le_name
  rwa [hsegments, hlen] at hname

/-- **The segments that are counted are the longest spelling of the name.** -/
theorem spelledSegments_cases (hp : ∀ s ∈ path, Dotted.Plain s) (n : ClassName) :
    (∃ k, spelledSegments path n = some k ∧ LongestSpelling path n.segments k) ∨
      spelledSegments path n = none ∧ ∀ c, ¬ Spells path n.segments c := by
  unfold spelledSegments
  cases hfull : fullRun? path n with
  | some k => exact Or.inl ⟨k, rfl, longest_of_fullRun? hp hfull⟩
  | none =>
    -- the search starts at the length of the shorter list, and no spelling is longer
    have hmin : ∀ {c}, Spells path n.segments c → c ≤ min path.length n.segments.length :=
      fun h => Nat.le_min.mpr ⟨h.le, h.le_name⟩
    rcases suffixRun_cases path n.segments (Nat.min_le_left _ _) with
      ⟨k, hk, hs, hmax⟩ | ⟨hnone, hnot⟩
    · exact Or.inl ⟨k, hk, hs, fun c hc => hmax c (hmin hc) hc⟩
    · exact Or.inr ⟨hnone, fun c hc => hnot c (hmin hc) hc⟩

theorem longest_of_spelledSegments (hp : ∀ s ∈ path, Dotted.Plain s) {n : ClassName}
    (h : spelledSegments path n = some count) : LongestSpelling path n.segments count := by
  rcases spelledSegments_cases hp n with ⟨k, hk, hlongest⟩ | ⟨hnone, -⟩
  · rwa [Option.some.inj (h.symm.trans hk)]
  · exact absurd (hnone.symm.trans h) nofun

/-- There is one longest spelling at most. -/
theorem LongestSpelling.unique (h : LongestSpelling path name count)
    (h' : LongestSpelling path name c) : count = c :=
  Nat.le_antisymm (h'.le_of_spells _ h.spells) (h.le_of_spells _ h'.spells)

/-- The search for a suffix finds the longest spelling, whichever way it is found otherwise. -/
theorem LongestSpelling.suffixRun_eq (h : LongestSpelling path name count) :
    suffixRun path name (min path.length name.length) = some count := by
  have hle : count ≤ min path.length name.length := Nat.le_min.mpr ⟨h.spells.le, h.spells.le_name⟩
  rcases suffixRun_cases path name (Nat.min_le_left _ _) with ⟨k, hk, hs, hmax⟩ | ⟨-, hnot⟩
  · rw [hk, Nat.le_antisymm (h.le_of_spells k hs) (hmax count hle h.spells)]
  · exact absurd h.spells (hnot count hle)

/-- No more segments spell a class than there are. -/
theorem spelledSegments_le {n : ClassName} (h : spelledSegments path n = some count) :
    count ≤ path.length := by
  unfold spelledSegments at h
  cases hfull : fullRun? path n with
  | some k =>
    rw [hfull] at h
    rw [← Option.some.inj h]
    exact (fullRun?_eq_some hfull).2.1
  | none =>
    rw [hfull] at h
    rcases suffixRun_cases path n.segments (Nat.min_le_left _ _) with
      ⟨k, hk, hs, _⟩ | ⟨hnone, _⟩
    · rw [← Option.some.inj (hk.symm.trans h)]
      exact hs.le
    · exact absurd (hnone.symm.trans h) nofun

end FieldPath
