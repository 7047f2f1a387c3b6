import Psrt.Server.Registry

/-! A map with the behaviour the registry relies on: the clients in a list, each with its filters. -/

namespace Psrt
open Wire

structure Entries where
  list : List (ServerClient × List Str)
  distinct : list.Pairwise fun e e' => e.1.digest ≠ e'.1.digest

namespace Entries

def known (s : Entries) (d : Digest) : Bool := s.list.any fun e => e.1.digest == d

def adjust (s : Entries) (d : Digest) (f : List Str → List Str) : Entries where
  list := s.list.map fun e => if e.1.digest = d then (e.1, f e.2) else e
  distinct := by
    refine List.pairwise_map.mpr (s.distinct.imp ?_)
    intro e e' h
    split_ifs <;> exact h

def matching (s : Entries) (t : Str) : List (ServerClient × List Str) :=
  s.list.filter fun e => e.2.any fun f => matchesFilter (f.splitOn '/') (t.splitOn '/')

theorem known_iff (s : Entries) (d : Digest) :
    s.known d = true ↔ ∃ e ∈ s.list, e.1.digest = d := by
  simp only [known, List.any_eq_true, beq_iff_eq]

theorem digest_ne_of_not_known {s : Entries} {d : Digest} (h : ¬ s.known d = true) :
    ∀ e ∈ s.list, e.1.digest ≠ d :=
  fun e he hd => h ((s.known_iff d).mpr ⟨e, he, hd⟩)

theorem mem_adjust {s : Entries} {d : Digest} {f : List Str → List Str} {c : ServerClient}
    {fs : List Str} :
    (c, fs) ∈ (s.adjust d f).list ↔
      (c.digest ≠ d ∧ (c, fs) ∈ s.list) ∨ (c.digest = d ∧ ∃ gs, (c, gs) ∈ s.list ∧ f gs = fs) := by
  simp only [adjust, List.mem_map, Prod.exists]
  constructor
  · rintro ⟨c', gs, hmem, heq⟩
    split_ifs at heq with hd
    · obtain ⟨rfl, rfl⟩ := Prod.mk.inj heq
      exact .inr ⟨hd, gs, hmem, rfl⟩
    · obtain ⟨rfl, rfl⟩ := Prod.mk.inj heq
      exact .inl ⟨hd, hmem⟩
  · rintro (⟨hd, hmem⟩ | ⟨hd, gs, hmem, rfl⟩)
    · exact ⟨c, fs, hmem, if_neg hd⟩
    · exact ⟨c, gs, hmem, if_pos hd⟩

theorem eq_of_digest {s : Entries} {e e' : ServerClient × List Str} (h : e ∈ s.list)
    (h' : e' ∈ s.list) (hd : e.1.digest = e'.1.digest) : e = e' := by
  have hpair : s.list.Pairwise fun e e' => e.1.digest = e'.1.digest → e = e' :=
    s.distinct.imp fun hne hd => absurd hd hne
  have hflip : s.list.Pairwise (flip fun e e' => e.1.digest = e'.1.digest → e = e') :=
    s.distinct.imp fun hne hd => absurd hd.symm hne
  exact hpair.forall_of_forall_of_flip (fun _ _ _ => rfl) hflip h h' hd

end Entries

def listMap : SubMap where
  State := Entries
  new := ⟨[], .nil⟩
  registerClient s c :=
    if h : s.known c.digest = true then (s, false)
    else (⟨(c, []) :: s.list, .cons
      (fun e he hd => h ((s.known_iff c.digest).mpr ⟨e, he, hd.symm⟩)) s.distinct⟩, true)
  unregisterClient s c := ⟨s.list.filter fun e => e.1.digest ≠ c.digest, s.distinct.filter _⟩
  subscribe s t c := s.adjust c.digest (t :: ·)
  unsubscribe s t c := s.adjust c.digest (·.filter (· ≠ t))
  getSubscribers s t := (s.matching t).map Prod.fst

def listMapView : listMap.View where
  clients s := {c | ∃ fs, (c, fs) ∈ Entries.list s}
  filters s d := {f | ∃ e ∈ Entries.list s, e.1.digest = d ∧ f ∈ e.2}

theorem listMapView_known (s : listMap.State) (c : ServerClient) :
    listMapView.Known s c ↔ Entries.known s c.digest = true := by
  refine Iff.trans ?_ (Entries.known_iff s c.digest).symm
  constructor
  · rintro ⟨c', ⟨fs, hmem⟩, hd⟩
    exact ⟨_, hmem, hd⟩
  · rintro ⟨⟨c', fs⟩, hmem, hd⟩
    exact ⟨c', ⟨fs, hmem⟩, hd⟩

theorem mem_filters_adjust {s : Entries} {d d' : Digest} {f : List Str → List Str} {t : Str} :
    t ∈ listMapView.filters (s.adjust d f) d' ↔
      ∃ e ∈ s.list, e.1.digest = d' ∧ t ∈ if d' = d then f e.2 else e.2 := by
  constructor
  · rintro ⟨⟨c, fs⟩, hmem, rfl, ht⟩
    obtain ⟨hne, hmem⟩ | ⟨rfl, gs, hgs, rfl⟩ := Entries.mem_adjust.mp hmem
    · exact ⟨_, hmem, rfl, by rwa [if_neg hne]⟩
    · exact ⟨(c, gs), hgs, rfl, by rwa [if_pos rfl]⟩
  · rintro ⟨⟨c, fs⟩, hmem, rfl, ht⟩
    split_ifs at ht with hd
    · exact ⟨(c, f fs), Entries.mem_adjust.mpr (.inr ⟨hd, fs, hmem, rfl⟩), rfl, ht⟩
    · exact ⟨(c, fs), Entries.mem_adjust.mpr (.inl ⟨hd, hmem⟩), rfl, ht⟩

theorem clients_adjust (s : Entries) (d : Digest) (f : List Str → List Str) :
    listMapView.clients (s.adjust d f) = listMapView.clients s := by
  ext c
  constructor
  · rintro ⟨fs, hmem⟩
    obtain ⟨_, hmem⟩ | ⟨_, gs, hmem, _⟩ := Entries.mem_adjust.mp hmem
    · exact ⟨fs, hmem⟩
    · exact ⟨gs, hmem⟩
  · rintro ⟨fs, hmem⟩
    by_cases hd : c.digest = d
    · exact ⟨f fs, Entries.mem_adjust.mpr (.inr ⟨hd, fs, hmem, rfl⟩)⟩
    · exact ⟨fs, Entries.mem_adjust.mpr (.inl ⟨hd, hmem⟩)⟩

theorem filters_adjust (s : Entries) (d : Digest) (f : List Str → List Str) :
    listMapView.filters (s.adjust d f) = Function.update (listMapView.filters s) d
      {t | ∃ e ∈ s.list, e.1.digest = d ∧ t ∈ f e.2} := by
  funext d'
  ext t
  refine mem_filters_adjust.trans ?_
  by_cases hd : d' = d
  · subst hd
    simp only [if_true, Function.update_self, Set.mem_ofPred_eq]
  · simp only [if_neg hd, Function.update_of_ne hd]
    rfl

theorem clients_registerClient {s : Entries} {c : ServerClient} (h : ¬ s.known c.digest = true) :
    listMapView.clients (listMap.registerClient s c).1 = insert c (listMapView.clients s) := by
  ext c'
  simp only [listMap, dif_neg h, listMapView, List.mem_cons, Prod.mk.injEq, Set.mem_ofPred_eq,
    Set.mem_insert_iff, exists_or, exists_and_left, exists_eq, and_true]

theorem filters_registerClient {s : Entries} {c : ServerClient} (h : ¬ s.known c.digest = true) :
    listMapView.filters (listMap.registerClient s c).1 =
      Function.update (listMapView.filters s) c.digest ∅ := by
  have hold : ∀ d t, t ∈ listMapView.filters (listMap.registerClient s c).1 d ↔
      t ∈ listMapView.filters s d := by
    intro d t
    simp only [listMap, dif_neg h, listMapView, Set.mem_ofPred_eq, List.mem_cons]
    constructor
    · rintro ⟨e, rfl | he, hde, ht⟩
      · exact absurd ht List.not_mem_nil
      · exact ⟨e, he, hde, ht⟩
    · rintro ⟨e, he, hde, ht⟩
      exact ⟨e, .inr he, hde, ht⟩
  funext d
  ext t
  rw [hold]
  by_cases hd : d = c.digest
  · subst hd
    rw [Function.update_self]
    refine iff_of_false ?_ (Set.notMem_empty t)
    rintro ⟨e, he, hde, _⟩
    exact Entries.digest_ne_of_not_known h e he hde
  · rw [Function.update_of_ne hd]

theorem filters_unregisterClient (s : Entries) {c : ServerClient} {d : Digest}
    (h : d ≠ c.digest) :
    listMapView.filters (listMap.unregisterClient s c) d = listMapView.filters s d := by
  ext t
  simp only [listMapView, listMap, List.mem_filter, Set.mem_ofPred_eq, decide_eq_true_eq]
  constructor
  · rintro ⟨e, ⟨he, _⟩, hde, ht⟩
    exact ⟨e, he, hde, ht⟩
  · rintro ⟨e, he, rfl, ht⟩
    exact ⟨e, ⟨he, h⟩, rfl, ht⟩

theorem filters_subscribe_of_ne (s : Entries) (t : Str) {c : ServerClient} {d : Digest}
    (h : d ≠ c.digest) :
    listMapView.filters (listMap.subscribe s t c) d = listMapView.filters s d :=
  (congrFun (filters_adjust s c.digest _) d).trans (Function.update_of_ne h ..)

theorem filters_subscribe {s : Entries} {c : ServerClient} (t : Str)
    (h : s.known c.digest = true) :
    listMapView.filters (listMap.subscribe s t c) c.digest =
      insert t (listMapView.filters s c.digest) := by
  obtain ⟨e, he, hd⟩ := (s.known_iff c.digest).mp h
  refine (congrFun (filters_adjust s c.digest _) c.digest).trans ?_
  rw [Function.update_self]
  ext t'
  simp only [Set.mem_ofPred_eq, List.mem_cons, Set.mem_insert_iff]
  constructor
  · rintro ⟨e', he', hd', rfl | ht⟩
    · exact .inl rfl
    · exact .inr ⟨e', he', hd', ht⟩
  · rintro (rfl | ⟨e', he', hd', ht⟩)
    · exact ⟨e, he, hd, .inl rfl⟩
    · exact ⟨e', he', hd', .inr ht⟩

theorem filters_unsubscribe_of_ne (s : Entries) (t : Str) {c : ServerClient} {d : Digest}
    (h : d ≠ c.digest) :
    listMapView.filters (listMap.unsubscribe s t c) d = listMapView.filters s d :=
  (congrFun (filters_adjust s c.digest _) d).trans (Function.update_of_ne h ..)

theorem filters_unsubscribe (s : Entries) (t : Str) (c : ServerClient) :
    listMapView.filters (listMap.unsubscribe s t c) c.digest =
      listMapView.filters s c.digest \ {t} := by
  refine (congrFun (filters_adjust s c.digest _) c.digest).trans ?_
  rw [Function.update_self]
  ext t'
  simp only [Set.mem_ofPred_eq, List.mem_filter, decide_eq_true_eq, Set.mem_sdiff,
    Set.mem_singleton_iff]
  constructor
  · rintro ⟨e, he, hd, ht, hne⟩
    exact ⟨⟨e, he, hd, ht⟩, hne⟩
  · rintro ⟨⟨e, he, hd, ht⟩, hne⟩
    exact ⟨e, he, hd, ht, hne⟩

theorem mem_getSubscribers (s : Entries) (t : Str) (c : ServerClient) :
    c ∈ listMap.getSubscribers s t ↔ c ∈ listMapView.clients s ∧
      ∃ f ∈ listMapView.filters s c.digest,
        matchesFilter (f.splitOn '/') (t.splitOn '/') = true := by
  simp only [listMap, Entries.matching, List.mem_map, List.mem_filter, List.any_eq_true]
  constructor
  · rintro ⟨e, ⟨he, f, hf, hmatch⟩, rfl⟩
    exact ⟨⟨e.2, he⟩, f, ⟨e, he, rfl, hf⟩, hmatch⟩
  · rintro ⟨⟨fs, hmem⟩, f, ⟨e, he, hde, hf⟩, hmatch⟩
    obtain rfl := Entries.eq_of_digest he hmem hde
    exact ⟨_, ⟨he, f, hf, hmatch⟩, rfl⟩

theorem listMap_laws : listMap.Laws listMapView where
  clients_new := by
    ext c
    simp [listMapView, listMap]
  digest_inj := by
    rintro s c c' ⟨fs, hmem⟩ ⟨fs', hmem'⟩ hd
    exact congrArg Prod.fst (Entries.eq_of_digest hmem hmem' hd)
  register_known s c h := by
    rw [listMapView_known] at h
    simp only [listMap, dif_pos h, and_self]
  register_new s c h := by
    rw [listMapView_known] at h
    refine ⟨?_, clients_registerClient h, filters_registerClient h⟩
    simp only [listMap, dif_neg h]
  clients_unregister s c := by
    ext c'
    simp only [listMapView, listMap, List.mem_filter, Set.mem_ofPred_eq, decide_eq_true_eq,
      exists_and_right]
  filters_unregister s c d hd := filters_unregisterClient s hd
  clients_subscribe s t c := clients_adjust s c.digest _
  filters_subscribe_of_ne s t c d hd := filters_subscribe_of_ne s t hd
  clients_unsubscribe s t c := clients_adjust s c.digest _
  filters_unsubscribe_of_ne s t c d hd := filters_unsubscribe_of_ne s t hd
  mem_clients_of_getSubscribers s t c h := ((mem_getSubscribers s t c).mp h).1
  filters_subscribe s t c h := by
    rw [listMapView_known] at h
    exact filters_subscribe t h
  filters_unsubscribe s t c := filters_unsubscribe s t c
  mem_getSubscribers s t c h := (mem_getSubscribers s t c).trans (and_iff_right h)

end Psrt
