import Observable.Proofs.Output.Grouping
/-! The keys of units: each is the first choice of its owner that no unit before it has. -/
namespace Observable.Group

theorem keysFrom_append (taken : List String) (os more : List Owner) :
    keysFrom taken (os ++ more)
      = keysFrom taken os ++ keysFrom (taken ++ keysFrom taken os) more := by
  induction os generalizing taken with
  | nil => rw [keysFrom, List.append_nil, List.nil_append, List.nil_append]
  | cons o os ih =>
    rw [List.cons_append, keysFrom, keysFrom, ih, List.append_assoc, List.singleton_append,
      List.cons_append]

/-- The keys before a key are taken when it is issued. -/
theorem keysFrom_firstFree (taken : List String) {os : List Owner} {o : Owner} {i : Nat}
    (h : os[i]? = some o) :
    ∃ key, (keysFrom taken os)[i]? = some key ∧
      IsFirstFree (taken ++ (keysFrom taken os).take i) o key := by
  induction os generalizing taken i with
  | nil => cases h
  | cons first os ih =>
    cases i with
    | zero =>
      obtain rfl : first = o := Option.some.inj h
      refine ⟨freeKey taken first, rfl, ?_⟩
      rw [List.take_zero, List.append_nil]
      exact freeKey_spec taken first
    | succ i =>
      obtain ⟨key, hkey, hfirst⟩ := ih (taken ++ [freeKey taken first]) h
      refine ⟨key, hkey, ?_⟩
      rwa [List.append_assoc, List.singleton_append] at hfirst

/-- Whatever the owners of some groups are, each group has one key. The keys differ from each other
and from the marker's; each is the first of its owner's choices that is not among the keys before
it, and the groups after it do not change it. -/
theorem keys_firstFree (groups : List Group) :
    (keys groups).length = groups.length ∧ (keys groups).Nodup ∧ Marker.key ∉ keys groups ∧
      (∀ i g, groups[i]? = some g → ∃ key, (keys groups)[i]? = some key ∧
        IsFirstFree ((keys groups).take i) g.owner key) ∧
      ∀ more, keys groups <+: keys (groups ++ more) := by
  refine ⟨length_keys groups, keys_nodup groups, fun h => ne_marker_of_mem_keys h rfl,
    fun i g hg => ?_, fun more => ?_⟩
  · have howner : (groups.map (·.owner))[i]? = some g.owner := by rw [List.getElem?_map, hg]; rfl
    simpa [keys] using keysFrom_firstFree [] howner
  · rw [keys, keys, List.map_append, keysFrom_append]
    exact List.prefix_append _ _

/-- Three types of one name, the modules of the last two flattening alike: the third one gets a
number. -/
theorem keys_firstFree_flattened :
    let group (segments : List String) : Group := ⟨⟨⟨segments⟩, "T"⟩, []⟩
    let groups := [group [], group ["a", "b"], group ["a_b"]]
    groups[2]? = some (group ["a_b"]) ∧ ∃ key, (keys groups)[2]? = some key ∧
      key = "a_b_T_2_Classes_g" ∧ IsFirstFree ((keys groups).take 2) ⟨⟨["a_b"]⟩, "T"⟩ key := by
  intro group groups
  have hthird : groups[2]? = some (group ["a_b"]) := rfl
  obtain ⟨key, hkey, hfirst⟩ := (keys_firstFree groups).2.2.2.1 2 (group ["a_b"]) hthird
  have hkeys : (keys groups)[2]? = some "a_b_T_2_Classes_g" := by decide +kernel
  exact ⟨hthird, key, hkey, Option.some.inj (hkey.symm.trans hkeys), hfirst⟩

end Observable.Group
