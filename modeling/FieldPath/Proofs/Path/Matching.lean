import FieldPath.Proofs.Path.Soundness
import FieldPath.Proofs.Path.Spelling

/-!
# Matched runs and spelled segments

A class table matches a path to a class by the longest leading run of segments that stands for one,
and answers only the class.  Resolution counts the segments again, by the name of the class.  The
run that was matched always spells the name, so something is counted, and never too little.  But a
name whose segments repeat may also be spelled by a longer run that stands for nothing, and then the
longer one is counted.

## Main definitions

* `ClassTable.MatchedRun` — the run that stands for a class.

## Main results

* `ClassTable.MatchedRun.spells` — the name of the class ends with the matched run.
* `spelledSegments_of_matchPath` — **the count is the matched run exactly if no longer run spells
  the name.**
* `spelledSegments_nestedLog` — a table where a longer run does.
-/

namespace FieldPath

namespace ClassTable

/-- The first `count` segments of a path stand for a class, and no longer run of them stands for
any. -/
structure MatchedRun (t : ClassTable) (path : List String) (count : Nat) (name : ClassName) :
    Prop where
  /-- There is a segment. -/
  pos : 0 < count
  /-- The path has as many. -/
  le : count ≤ path.length
  /-- The run stands for the class. -/
  resolves : t.resolveName? (Dotted.join (path.take count)) = some name
  /-- A longer run stands for nothing. -/
  longest : ∀ c, count < c → c ≤ path.length →
    t.resolveName? (Dotted.join (path.take c)) = none

variable {t : ClassTable} {path : List String} {ty : Ty}

/-! ### The matched run -/

/-- The search from `n` segments down stops at the longest run that stands for a class. -/
theorem matchRun_eq_some {n : Nat} (h : t.matchRun path n = some ty) (hn : n ≤ path.length)
    (hlonger : ∀ c, n < c → c ≤ path.length →
      t.resolveName? (Dotted.join (path.take c)) = none) :
    ∃ count o, ty = .object o ∧ t.MatchedRun path count o.name := by
  induction n with
  | zero => simp [matchRun] at h
  | succ n ih =>
    rw [matchRun] at h
    split at h
    · next name hname =>
      obtain ⟨o, ho, rfl⟩ := Option.map_eq_some_iff.mp h
      refine ⟨n + 1, o, rfl, Nat.succ_pos n, hn, ?_, hlonger⟩
      rw [name_of_objectType? ho, hname]
    · next hnone =>
      -- this run stands for nothing either, so all longer ones than the next have been tried
      refine ih h (Nat.le_of_succ_le hn) fun c hc hle => ?_
      rcases Nat.lt_or_eq_of_le (Nat.succ_le_of_lt hc) with hc | rfl
      · exact hlonger c hc hle
      · exact hnone

theorem matchPath_eq_some (h : t.matchPath path = some ty) :
    ∃ count o, ty = .object o ∧ t.MatchedRun path count o.name :=
  matchRun_eq_some h (Nat.le_refl _) fun _ hc hle => absurd hc (Nat.not_lt.mpr hle)

/-! ### What a written name stands for -/

theorem split_suffix_segments_ofPackage (package written : String) :
    Dotted.split written <:+ (ClassName.ofPackage package written).segments := by
  unfold ClassName.ofPackage
  split
  · exact List.suffix_rfl
  · rw [ClassName.segments, Dotted.split_append_dot]
    exact List.suffix_append _ _

theorem simple_of_uniqueSimple? {simple : String} {name : ClassName}
    (h : t.uniqueSimple? simple = some name) : name.simple = simple := by
  unfold uniqueSimple? at h
  split at h
  · next only honly =>
    have hmem : only ∈ t.decls.filter (·.name.simple == simple) := honly ▸ List.mem_singleton_self _
    rw [← Option.some.inj h]
    simpa using (List.mem_filter.mp hmem).2
  · simp at h

/-- However a written name is completed, the full name ends with what was written. -/
theorem split_suffix_of_resolveName? {written : String} {name : ClassName}
    (h : t.resolveName? written = some name) : Dotted.split written <:+ name.segments := by
  unfold resolveName? at h
  simp only at h
  split at h
  · next n hfind =>
    obtain rfl := Option.some.inj h
    rcases List.mem_cons.mp (List.mem_of_find?_eq_some hfind) with rfl | hmem
    · exact List.suffix_rfl
    · obtain ⟨package, -, rfl⟩ := List.mem_map.mp hmem
      exact split_suffix_segments_ofPackage package written
  · split at h
    · next hsimple =>
      -- a name without a dot is its own last segment
      have hplain : Dotted.Plain written := by
        simpa [Dotted.Plain] using (Bool.and_eq_true_iff.mp hsimple).2
      rw [Dotted.split_of_plain hplain, ← simple_of_uniqueSimple? h]
      exact ⟨_, List.dropLast_concat_getLast name.segments_ne_nil⟩
    · simp at h

/-- The matched run spells the name of its class. -/
theorem MatchedRun.spells {count : Nat} {name : ClassName} (h : t.MatchedRun path count name)
    (hp : ∀ s ∈ path, Dotted.Plain s) : Spells path name.segments count := by
  have hne : path.take count ≠ [] := by
    have hlen := List.length_take_of_le h.le
    intro hnil
    rw [hnil, List.length_nil] at hlen
    exact absurd h.pos (hlen ▸ Nat.lt_irrefl 0)
  have hsuffix := split_suffix_of_resolveName? h.resolves
  rw [Dotted.split_join hne fun s hs => hp s (List.mem_of_mem_take hs)] at hsuffix
  exact ⟨h.pos, h.le, hsuffix⟩

/-- If the name repeats no segment, the matched run is what is counted. -/
theorem MatchedRun.spelledSegments_eq_of_nodup {count : Nat} {name : ClassName}
    (h : t.MatchedRun path count name) (hp : ∀ s ∈ path, Dotted.Plain s)
    (hn : name.segments.Nodup) : spelledSegments path name = some count := by
  rcases spelledSegments_cases hp name with ⟨counted, hcount, hlongest⟩ | ⟨-, hnone⟩
  · rw [hcount, hlongest.spells.eq_of_nodup (h.spells hp) hn]
  · exact absurd (h.spells hp) (hnone count)

/-- If the matched run is the full name, it is what is counted. -/
theorem MatchedRun.spelledSegments_eq_of_full {count : Nat} {name : ClassName}
    (h : t.MatchedRun path count name) (hp : ∀ s ∈ path, Dotted.Plain s)
    (hfull : name.segments.length = count) : spelledSegments path name = some count := by
  rcases spelledSegments_cases hp name with ⟨counted, hcount, hlongest⟩ | ⟨-, hnone⟩
  · have hle := hlongest.le_of_spells count (h.spells hp)
    have hge := hlongest.spells.le_name
    rw [hcount, Nat.le_antisymm (hfull ▸ hge) hle]
  · exact absurd (h.spells hp) (hnone count)

end ClassTable

/-! ### Both counts -/

/-- **When a table matches a path, the segments that are counted are no fewer than the matched ones,
and they are the same exactly if no longer run spells the name of the class.** -/
theorem spelledSegments_of_matchPath (t : ClassTable) (path : List String) (ty : Ty)
    (hid : ∀ s ∈ path, isIdentifier s.toList = true) (h : t.matchPath path = some ty) :
    ∃ o matched counted, ty = .object o ∧ t.MatchedRun path matched o.name ∧
      spelledSegments path o.name = some counted ∧ matched ≤ counted ∧
      (counted = matched ↔ ∀ c, matched < c → ¬ Spells path o.name.segments c) := by
  have hp : ∀ s ∈ path, Dotted.Plain s := fun s hs => plain_of_isIdentifier (hid s hs)
  obtain ⟨matched, o, rfl, hrun⟩ := ClassTable.matchPath_eq_some h
  have hspells := hrun.spells hp
  rcases spelledSegments_cases hp o.name with ⟨counted, hcount, hlongest⟩ | ⟨-, hnone⟩
  · have hle := hlongest.le_of_spells _ hspells
    refine ⟨o, matched, counted, rfl, hrun, hcount, hle, fun heq c hc hs => ?_, fun hno => ?_⟩
    · have := hlongest.le_of_spells c hs
      omega
    · rcases Nat.lt_or_eq_of_le hle with hlt | heq
      · exact absurd hlongest.spells (hno counted hlt)
      · exact heq.symm
  · exact absurd hspells (hnone matched)

/-- A simple name stands for the class of nodes, and one segment is counted for it. -/
theorem spelledSegments_of_matchPath_linkedList :
    LinkedList.table.matchPath ["Node", "first"] = some (.object LinkedList.nodeType) ∧
      ∃ o matched counted, Ty.object LinkedList.nodeType = .object o ∧
        LinkedList.table.MatchedRun ["Node", "first"] matched o.name ∧
        spelledSegments ["Node", "first"] o.name = some counted ∧ matched ≤ counted ∧
        (counted = matched ↔ ∀ c, matched < c → ¬ Spells ["Node", "first"] o.name.segments c) :=
  ⟨by rfl, spelledSegments_of_matchPath _ _ _ (by decide +kernel) (by rfl)⟩

namespace NestedLog

/-- A class of logs in a package of the same name, with a first log and a level for each. -/
def log : ClassDecl :=
  (({ name := ⟨"app.log.log"⟩ } : ClassDecl).withField
    (.staticField ⟨"app.log.log"⟩ "log" (.named ⟨"app.log.log"⟩)) none).withField
    (.instanceField ⟨"app.log.log"⟩ "level" (.primitive .int)) none

/-- The table with the class of logs. -/
def table : ClassTable := { decls := [log] }

/-- The class of logs. -/
def logType : ObjectType := ⟨⟨"app.log.log"⟩, []⟩

end NestedLog

/-- In the path `log.log.level` the first segment stands for the class of logs and the second is
its field, but both are counted for the class. -/
theorem spelledSegments_nestedLog :
    NestedLog.table.matchPath ["log", "log"] = some (.object NestedLog.logType) ∧
      NestedLog.table.MatchedRun ["log", "log"] 1 NestedLog.logType.name ∧
      spelledSegments ["log", "log"] NestedLog.logType.name = some 2 := by
  refine ⟨by rfl, ⟨by decide, by decide, by rfl, fun c hc hle => ?_⟩, by rfl⟩
  obtain rfl : c = 2 := Nat.le_antisymm hle hc
  rfl

end FieldPath
