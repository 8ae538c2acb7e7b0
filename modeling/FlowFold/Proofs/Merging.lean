import FlowFold.Proofs.Information

/-! # Merging in any order and in stages

A merge takes the fact under a key from the first environment that has the key, so it is not
obvious that the order does not matter. It does not, because the fact is kept only if all
environments agree on it, those that lack the key counting as knowing nothing. So a merge says
something under a key exactly if all its members say it, and which members there are is all
that counts.

Merging in stages gives the same as merging at once, provided that no stage is empty: the
merge of no environments lacks every key and so disagrees with every constant.
-/

namespace FlowFold.Env

variable {envs : List Env} {k : Key} {fact : Fact}

/-- Environments are equal if they have the same keys and say the same under each. A fact other
    than the lack of one is enough to tell two environments apart. -/
theorem ext_get {a b : Env} (keys : ∀ k : Key, k ∈ a ↔ k ∈ b)
    (facts : ∀ k fact, fact ≠ .nothing → (a.get k = fact ↔ b.get k = fact)) : a = b := by
  have get : ∀ k, a.get k = b.get k := by
    intro k
    by_cases nothing : a.get k = .nothing
    · by_contra differ
      have told : b.get k ≠ .nothing := fun none => differ (nothing.trans none.symm)
      exact differ ((facts k _ told).mpr rfl)
    · exact ((facts k _ nothing).mp rfl).symm
  refine Std.ExtTreeMap.ext_getElem? fun k => ?_
  by_cases member : k ∈ a
  · rw [getElem?_eq_get member, getElem?_eq_get ((keys k).mp member), get k]
  · rw [Std.ExtTreeMap.getElem?_eq_none member,
      Std.ExtTreeMap.getElem?_eq_none fun inB => member ((keys k).mpr inB)]

theorem get_of_not_mem {env : Env} (absent : k ∉ env) : env.get k = .nothing :=
  Std.ExtTreeMap.getD_eq_fallback absent

/-- A merge says something under a key exactly if it has members and all of them say it. The
    something may also be an unknown with a value in its unused slot. -/
theorem get_merge_iff (told : fact ≠ .nothing) :
    (merge envs).get k = fact ↔ envs ≠ [] ∧ ∀ env ∈ envs, env.get k = fact := by
  constructor
  · intro merged
    have member : k ∈ merge envs := by
      by_contra absent
      exact told (merged.symm.trans (get_of_not_mem absent))
    have entry := getElem?_eq_get member
    rw [getElem?_merge, merged] at entry
    obtain ⟨env, found, kept⟩ := Option.map_eq_some_iff.mp entry
    refine ⟨List.ne_nil_of_mem (List.mem_of_find?_eq_some found), ?_⟩
    unfold agreed at kept
    split at kept
    · rename_i all
      rw [kept] at all
      simpa using all
    · exact absurd kept.symm told
  · rintro ⟨nonempty, all⟩
    obtain ⟨env, among⟩ := List.exists_mem_of_ne_nil envs nonempty
    have member : k ∈ merge envs := by
      refine mem_merge.mpr ⟨env, among, ?_⟩
      by_contra absent
      exact told ((all env among).symm.trans (get_of_not_mem absent))
    have entry := getElem?_eq_get member
    rw [getElem?_merge] at entry
    obtain ⟨first, found, kept⟩ := Option.map_eq_some_iff.mp entry
    rw [← kept, all first (List.mem_of_find?_eq_some found), agreed, if_pos]
    simpa using all

/-- Which environments are merged is all that counts, not their order and not how often each of
    them is there. -/
theorem merge_congr {xs ys : List Env} (same : ∀ env, env ∈ xs ↔ env ∈ ys) : merge xs = merge ys := by
  have empty : xs = [] ↔ ys = [] := by
    simp only [List.eq_nil_iff_forall_not_mem, same]
  refine ext_get (fun k => ?_) (fun k fact told => ?_)
  · simp only [mem_merge, same]
  · rw [get_merge_iff told, get_merge_iff told, ne_eq, ne_eq, empty]
    simp only [same]

theorem merge_map_merge {groups : List (List Env)} (nonempty : ∀ group ∈ groups, group ≠ []) :
    merge (groups.map merge) = merge groups.flatten := by
  refine ext_get (fun k => ?_) (fun k fact told => ?_)
  · simp only [mem_merge, List.mem_map, List.mem_flatten]
    constructor
    · rintro ⟨_, ⟨group, among, rfl⟩, inMerge⟩
      obtain ⟨env, member, inEnv⟩ := mem_merge.mp inMerge
      exact ⟨env, ⟨group, among, member⟩, inEnv⟩
    · rintro ⟨env, ⟨group, among, member⟩, inEnv⟩
      exact ⟨_, ⟨group, among, rfl⟩, mem_merge.mpr ⟨env, member, inEnv⟩⟩
  · rw [get_merge_iff told, get_merge_iff told]
    simp only [ne_eq, List.map_eq_nil_iff, List.forall_mem_map, List.mem_flatten, get_merge_iff told]
    constructor
    · rintro ⟨some, all⟩
      obtain ⟨group, among⟩ := List.exists_mem_of_ne_nil groups some
      refine ⟨fun flat => nonempty group among (List.flatten_eq_nil_iff.mp flat group among), ?_⟩
      rintro env ⟨group, among, member⟩
      exact (all group among).2 env member
    · rintro ⟨some, all⟩
      refine ⟨fun none => some (by rw [none, List.flatten_nil]), fun group among => ?_⟩
      exact ⟨nonempty group among, fun env member => all env ⟨group, among, member⟩⟩

/-- A merge is the same for every order of its members, however often a member is repeated, and
    for every way to merge in stages none of which is empty. -/
theorem merge_regroup (envs : List Env) :
    (∀ others, envs.Perm others → merge others = merge envs) ∧
    (∀ before after env, before ++ after = envs → env ∈ envs → merge (before ++ env :: after) = merge envs) ∧
    (∀ groups : List (List Env), groups.flatten = envs → (∀ group ∈ groups, group ≠ []) →
      merge (groups.map merge) = merge envs) := by
  refine ⟨fun others order => ?_, fun before after env cut member => ?_, fun groups cut nonempty => ?_⟩
  · exact merge_congr fun env => order.mem_iff.symm
  · refine merge_congr fun other => ?_
    subst cut
    simp only [List.mem_append, List.mem_cons] at member ⊢
    constructor
    · rintro (inBefore | rfl | inAfter)
      · exact .inl inBefore
      · exact member
      · exact .inr inAfter
    · rintro (inBefore | inAfter)
      · exact .inl inBefore
      · exact .inr (.inr inAfter)
  · rw [← cut]
    exact merge_map_merge nonempty

/-- A constant, an unknown with a value in its unused slot, and no entry, all under one key. -/
def threeWays : List Env :=
  [(∅ : Env).insert (.var "x") (.known (.ofInt 1)), (∅ : Env).insert (.var "x") (.unknown (.ofInt 5)), ∅]

-- A stage without members would take away the constant that the other stage has.
example : merge ([threeWays.take 1, []].map merge) ≠ merge (threeWays.take 1) := by decide

theorem merge_regroup_threeWays :
    threeWays.Perm threeWays.reverse ∧ merge threeWays.reverse = merge threeWays ∧
      ∅ ∈ threeWays ∧ merge (∅ :: threeWays) = merge threeWays ∧
      merge [merge (threeWays.take 2), merge (threeWays.drop 2)] = merge threeWays := by
  have reversed : threeWays.Perm threeWays.reverse := threeWays.reverse_perm.symm
  have last : ∅ ∈ threeWays := by simp [threeWays]
  obtain ⟨order, repetition, stages⟩ := merge_regroup threeWays
  refine ⟨reversed, order _ reversed, last, repetition [] threeWays ∅ rfl last, ?_⟩
  exact stages [threeWays.take 2, threeWays.drop 2] (by simp) (by simp [threeWays])

end FlowFold.Env
