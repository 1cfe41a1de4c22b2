import Mathlib.Data.Finset.Card
import Mathlib.Data.List.TakeWhile
import Downhill.Cache.Basic

/-!
# The cache as a recency list

A cache keeps its traces in a map and the order of their use in a list beside it, and four calls
change the two in different branches. Here a cache is replayed from its calls together with a log of
what they did. `recency` puts the keys of the log in the order of their last use, without any bound;
the cache holds the first `capacity` of them, each with the trace that was stored last.
-/

namespace Downhill

section Keys

variable {α : Type} [DecidableEq α]

lemma takeWhile_erase {key used : α} (keys : List α) (h : used ≠ key) :
    (keys.erase used).takeWhile (· ≠ key) = (keys.takeWhile (· ≠ key)).erase used := by
  induction keys with
  | nil => rfl
  | cons k keys ih =>
    simp only [ne_eq, decide_not] at ih
    by_cases hk : k = key
    · subst hk
      simp [Ne.symm h]
    · by_cases hu : k = used
      · simp [hu, h]
      · simp [hk, hu, ih]

/-- Forgetting all but the first `n` keys before a use is the same as forgetting them after it. -/
lemma take_cons_erase_take (key : α) (keys : List α) (n : Nat) :
    (key :: (keys.take n).erase key).take n = (key :: keys.erase key).take n := by
  cases n with
  | zero => rfl
  | succ n =>
    rw [List.take_succ_cons, List.take_succ_cons]
    congr 1
    induction keys generalizing n with
    | nil => rfl
    | cons k keys ih =>
      rw [List.take_succ_cons]
      by_cases hk : k = key
      · simp [hk]
      · cases n with
        | zero => simp
        | succ n => simpa [hk] using ih n

lemma mem_take_iff_length_takeWhile {key : α} {keys : List α} (h : key ∈ keys) (n : Nat) :
    key ∈ keys.take n ↔ (keys.takeWhile (· ≠ key)).length < n := by
  induction keys generalizing n with
  | nil => cases h
  | cons k keys ih =>
    cases n with
    | zero => simp
    | succ n =>
      by_cases hk : k = key
      · simp [hk]
      · have hmem : key ∈ keys := by
          rcases List.mem_cons.mp h with rfl | hmem
          · exact absurd rfl hk
          · exact hmem
        simpa [hk, Ne.symm hk] using ih hmem n

end Keys

namespace TraceCache

variable {F : Type}

inductive Call (F : Type) where
  | get (key : TraceKey)
  | insert (key : TraceKey) (trace : Trace F)
  | getOrRun (problem : String) (algorithm : Algorithm) (obj : Objective F) (options : Options F)
  | clear

/-- What a call did. A call that finds nothing and keeps nothing leaves no event. -/
inductive Event (F : Type) where
  | stored (key : TraceKey) (trace : Trace F)
  | hit (key : TraceKey)
  | cleared

def Event.key? : Event F → Option TraceKey
  | stored key _ => some key
  | hit key => some key
  | cleared => none

/-- The trace that was stored last under a key since the cache was cleared. Logs have their last
event first. -/
def lastStored (key : TraceKey) : List (Event F) → Option (Trace F)
  | [] => none
  | .cleared :: _ => none
  | .stored stored trace :: earlier => if stored = key then some trace else lastStored key earlier
  | .hit _ :: earlier => lastStored key earlier

/-- The keys that were used after the last use of a key. -/
def usedSince (key : TraceKey) (log : List (Event F)) : Finset TraceKey :=
  ((log.takeWhile fun event => event.key? ≠ some key).filterMap Event.key?).toFinset

/-- The keys used since the cache was cleared, the one that was used last in front. -/
def recency : List (Event F) → List TraceKey
  | [] => []
  | .cleared :: _ => []
  | .stored key _ :: earlier => key :: (recency earlier).erase key
  | .hit key :: earlier => key :: (recency earlier).erase key

section Recency

lemma recency_nodup (log : List (Event F)) : (recency log).Nodup := by
  induction log with
  | nil => exact List.nodup_nil
  | cons event earlier ih =>
    cases event with
    | cleared => exact List.nodup_nil
    | stored key _ => exact List.nodup_cons.mpr ⟨ih.not_mem_erase, ih.erase key⟩
    | hit key => exact List.nodup_cons.mpr ⟨ih.not_mem_erase, ih.erase key⟩

lemma mem_recency_of_lastStored {key : TraceKey} {trace : Trace F} {log : List (Event F)}
    (h : lastStored key log = some trace) : key ∈ recency log := by
  induction log with
  | nil => cases h
  | cons event earlier ih =>
    cases event with
    | cleared => cases h
    | stored used _ =>
      rw [recency, List.mem_cons]
      by_cases heq : used = key
      · exact .inl heq.symm
      · rw [lastStored, if_neg heq] at h
        exact .inr ((List.mem_erase_of_ne (Ne.symm heq)).mpr (ih h))
    | hit used =>
      rw [recency, List.mem_cons]
      by_cases heq : used = key
      · exact .inl heq.symm
      · exact .inr ((List.mem_erase_of_ne (Ne.symm heq)).mpr (ih h))

/-- A key stands in the recency list behind exactly the keys that were used since. -/
lemma mem_takeWhile_recency {key : TraceKey} {log : List (Event F)} (h : key ∈ recency log)
    (other : TraceKey) :
    other ∈ (recency log).takeWhile (· ≠ key) ↔ other ∈ usedSince key log := by
  induction log with
  | nil => cases h
  | cons event earlier ih =>
    -- Both kinds of use move their key to the front and hide what is behind it.
    have huse : ∀ used, key ∈ used :: (recency earlier).erase used → event.key? = some used →
        (other ∈ (used :: (recency earlier).erase used).takeWhile (· ≠ key) ↔
          other ∈ usedSince key (event :: earlier)) := by
      intro used hmem hkey
      by_cases heq : used = key
      · simp [usedSince, hkey, heq]
      · have hearlier : key ∈ recency earlier := by
          rcases List.mem_cons.mp hmem with rfl | hmem
          · exact absurd rfl heq
          · exact List.mem_of_mem_erase hmem
        have hfront : (used :: (recency earlier).erase used).takeWhile (· ≠ key) =
            used :: ((recency earlier).takeWhile (· ≠ key)).erase used := by
          rw [List.takeWhile_cons_of_pos (by simpa using heq), takeWhile_erase _ heq]
        have hnodup : ((recency earlier).takeWhile (· ≠ key)).Nodup :=
          (recency_nodup earlier).sublist (List.takeWhile_sublist _)
        have hsince : usedSince key (event :: earlier) = {used} ∪ usedSince key earlier := by
          rw [usedSince, List.takeWhile_cons_of_pos (by simpa [hkey] using heq),
            List.filterMap_cons_some hkey, List.toFinset_cons]
          rfl
        rw [hfront, hsince, List.mem_cons, Finset.mem_union, Finset.mem_singleton, hnodup.mem_erase_iff,
          ih hearlier]
        tauto
    cases event with
    | cleared => cases h
    | stored used _ => exact huse used h rfl
    | hit used => exact huse used h rfl

lemma length_takeWhile_recency {key : TraceKey} {log : List (Event F)} (h : key ∈ recency log) :
    ((recency log).takeWhile (· ≠ key)).length = (usedSince key log).card := by
  have hnodup : ((recency log).takeWhile (· ≠ key)).Nodup :=
    (recency_nodup log).sublist (List.takeWhile_sublist _)
  rw [← List.toFinset_card_of_nodup hnodup]
  congr 1
  ext other
  rw [List.mem_toFinset, mem_takeWhile_recency h]

end Recency

/-- The map and the order of a cache name the same keys, and every trace is the one stored last. -/
structure Consistent (c : TraceCache F) (log : List (Event F)) : Prop where
  nodup : c.order.Nodup
  mem_iff : ∀ key, key ∈ c.order ↔ key ∈ c.entries
  size : c.entries.size = c.order.length
  stored : ∀ key ∈ c.order, c.entries[key]? = lastStored key log

namespace Consistent

variable {c : TraceCache F} {log : List (Event F)} {key : TraceKey}

lemma hit (h : Consistent c log) (hk : key ∈ c.order) :
    Consistent { c with order := touched c.order key } (.hit key :: log) := by
  have hperm : (touched c.order key).Perm c.order := by
    rw [touched, if_pos hk]
    exact (List.perm_append_singleton _ _).trans (List.perm_cons_erase hk).symm
  refine ⟨hperm.nodup_iff.mpr h.nodup, ?_, ?_, ?_⟩
  · intro other
    rw [hperm.mem_iff, h.mem_iff]
  · rw [hperm.length_eq, h.size]
  · intro other hother
    exact h.stored other (hperm.mem_iff.mp hother)

lemma replace (h : Consistent c log) (hk : key ∈ c.order) (trace : Trace F) :
    Consistent { c with entries := c.entries.insert key trace, order := touched c.order key }
      (.stored key trace :: log) := by
  obtain ⟨hnodup, hmem, hsize, hstored⟩ := h.hit hk
  refine ⟨hnodup, ?_, ?_, ?_⟩
  · intro other
    rw [Std.HashMap.mem_insert, hmem, beq_iff_eq]
    constructor
    · exact .inr
    · rintro (rfl | hother)
      · exact (h.mem_iff _).mp hk
      · exact hother
  · rw [Std.HashMap.size_insert, if_pos ((h.mem_iff key).mp hk), hsize]
  · intro other hother
    rw [Std.HashMap.getElem?_insert, lastStored]
    by_cases heq : key = other
    · simp [heq]
    · rw [if_neg heq, if_neg (by simpa using heq)]
      exact hstored other hother

lemma add (h : Consistent c log) (hk : key ∉ c.order) (trace : Trace F) :
    Consistent { c with entries := c.entries.insert key trace, order := c.order ++ [key] }
      (.stored key trace :: log) := by
  have hentries : key ∉ c.entries := fun hmem => hk ((h.mem_iff key).mpr hmem)
  refine ⟨h.nodup.append (List.nodup_singleton key) (by simpa using hk), ?_, ?_, ?_⟩
  · intro other
    rw [List.mem_append, List.mem_singleton, Std.HashMap.mem_insert, h.mem_iff, beq_iff_eq,
      or_comm, eq_comm]
  · rw [Std.HashMap.size_insert, if_neg hentries, h.size, List.length_append,
      List.length_singleton]
  · intro other hother
    rw [Std.HashMap.getElem?_insert, lastStored]
    by_cases heq : key = other
    · simp [heq]
    · have hold : other ∈ c.order := by simpa [Ne.symm heq] using hother
      simpa [heq] using h.stored other hold

lemma evict (h : Consistent c log) : Consistent c.evict log := by
  unfold TraceCache.evict
  split
  · cases horder : c.order with
    | nil => exact h
    | cons oldest order =>
      obtain ⟨hnodup, hmem, hsize, hstored⟩ := h
      rw [horder] at hnodup hmem hsize hstored
      obtain ⟨holdest, hnodup⟩ := List.nodup_cons.mp hnodup
      refine ⟨hnodup, ?_, ?_, ?_⟩
      · intro other
        rw [Std.HashMap.mem_erase, ← hmem, List.mem_cons, beq_eq_false_iff_ne]
        constructor
        · exact fun hother => ⟨fun heq => holdest (heq ▸ hother), .inr hother⟩
        · rintro ⟨hne, rfl | hother⟩
          · exact absurd rfl hne
          · exact hother
      · rw [Std.HashMap.size_erase, if_pos ((hmem oldest).mp List.mem_cons_self), hsize]
        rfl
      · intro other hother
        have hne : oldest ≠ other := fun heq => holdest (heq ▸ hother)
        rw [Std.HashMap.getElem?_erase, if_neg (by simpa using hne)]
        exact hstored other (List.mem_cons_of_mem _ hother)
  · exact h

end Consistent

/-- The cache holds the keys that were used last. -/
structure Follows (c : TraceCache F) (log : List (Event F)) : Prop extends Consistent c log where
  order : c.order.reverse = (recency log).take c.capacity

/-- The order after a use of a key, with room for `capacity` keys. -/
def usedOrder (capacity : Nat) (order : List TraceKey) (key : TraceKey) : List TraceKey :=
  (order.erase key).drop ((order.erase key).length + 1 - capacity) ++ [key]

lemma reverse_usedOrder {capacity : Nat} {order : List TraceKey} (key : TraceKey)
    (hcapacity : 0 < capacity) (hnodup : order.Nodup) :
    (usedOrder capacity order key).reverse = (key :: order.reverse.erase key).take capacity := by
  have herase : (order.erase key).reverse = order.reverse.erase key := by
    rw [hnodup.erase_eq_filter, (List.nodup_reverse.mpr hnodup).erase_eq_filter,
      List.filter_reverse]
  obtain ⟨room, rfl⟩ : ∃ room, capacity = room + 1 := ⟨capacity - 1, by omega⟩
  rw [usedOrder, List.reverse_append, List.reverse_singleton, List.singleton_append,
    List.take_succ_cons, List.reverse_drop, herase]
  congr 1
  rcases Nat.le_total (order.erase key).length room with hle | hle
  · rw [List.take_of_length_le (by rw [← herase, List.length_reverse]; omega),
      List.take_of_length_le (by rw [← herase, List.length_reverse]; omega)]
  · congr 1
    omega

lemma capacity_evict (c : TraceCache F) : c.evict.capacity = c.capacity := by
  unfold evict
  split
  · split <;> rfl
  · rfl

lemma capacity_insert (c : TraceCache F) (key : TraceKey) (trace : Trace F) :
    (c.insert key trace).capacity = c.capacity := by
  unfold TraceCache.insert
  split_ifs
  · rfl
  · rfl
  · exact c.capacity_evict

lemma evict_order_subset (c : TraceCache F) : c.evict.order ⊆ c.order := by
  unfold evict
  split
  · cases horder : c.order with
    | nil => simp [horder]
    | cons oldest order => exact List.subset_cons_self _ _
  · exact List.Subset.refl _

namespace Follows

variable {c : TraceCache F} {log : List (Event F)} {key : TraceKey}

lemma length_le (h : Follows c log) : c.order.length ≤ c.capacity := by
  rw [← List.length_reverse, h.order]
  exact List.length_take_le _ _

lemma capacity_pos (h : Follows c log) (hk : key ∈ c.order) : 0 < c.capacity :=
  Nat.lt_of_lt_of_le (List.length_pos_of_mem hk) h.length_le

lemma reverse_usedOrder_eq (h : Follows c log) (key : TraceKey) (hcapacity : 0 < c.capacity) :
    (usedOrder c.capacity c.order key).reverse =
      (key :: (recency log).erase key).take c.capacity := by
  rw [reverse_usedOrder key hcapacity h.nodup, h.order, take_cons_erase_take]

lemma touched_eq (h : Follows c log) (hk : key ∈ c.order) :
    touched c.order key = usedOrder c.capacity c.order key := by
  have hlength := h.length_le
  have hpos := List.length_pos_of_mem hk
  have herase := List.length_erase_of_mem hk
  rw [touched, if_pos hk, usedOrder, Nat.sub_eq_zero_of_le (by omega), List.drop_zero]

/-- Making room and putting a new key behind the others is a use of the key. -/
lemma evict_append_eq (h : Follows c log) (hcapacity : 0 < c.capacity) (hk : key ∉ c.order) :
    c.evict.order ++ [key] = usedOrder c.capacity c.order key := by
  have hlength := h.length_le
  rw [usedOrder, List.erase_of_not_mem hk, TraceCache.evict, h.size]
  congr 1
  split
  · rename_i hfull
    rw [hfull, Nat.add_sub_cancel_left, List.drop_one]
    cases horder : c.order with
    | nil => rw [horder] at hfull; simp at hfull; omega
    | cons oldest order => rfl
  · rw [Nat.sub_eq_zero_of_le (by omega), List.drop_zero]

lemma hit (h : Follows c log) (hk : key ∈ c.order) :
    Follows { c with order := touched c.order key } (.hit key :: log) where
  toConsistent := h.toConsistent.hit hk
  order := by
    rw [h.touched_eq hk]
    exact h.reverse_usedOrder_eq key (h.capacity_pos hk)

lemma insert (h : Follows c log) (key : TraceKey) (trace : Trace F) :
    Follows (c.insert key trace) (.stored key trace :: log) := by
  unfold TraceCache.insert
  by_cases hzero : c.capacity = 0
  · have hnil : c.order = [] := by
      have hlength := h.length_le
      exact List.eq_nil_of_length_eq_zero (by omega)
    rw [if_pos hzero]
    refine ⟨⟨h.nodup, h.mem_iff, h.size, ?_⟩, ?_⟩
    · simp [hnil]
    · simp [hnil, hzero]
  · have hcapacity : 0 < c.capacity := Nat.pos_of_ne_zero hzero
    rw [if_neg hzero]
    by_cases hk : key ∈ c.order
    · rw [if_pos ((h.mem_iff key).mp hk)]
      refine ⟨h.replace hk trace, ?_⟩
      rw [h.touched_eq hk]
      exact h.reverse_usedOrder_eq key hcapacity
    · rw [if_neg fun hmem => hk ((h.mem_iff key).mpr hmem)]
      have hroomy : key ∉ c.evict.order := fun hmem => hk (c.evict_order_subset hmem)
      refine ⟨h.toConsistent.evict.add hroomy trace, ?_⟩
      dsimp only
      rw [h.evict_append_eq hcapacity hk, c.capacity_evict]
      exact h.reverse_usedOrder_eq key hcapacity

end Follows

/-- The cache after a call. -/
def Call.apply [Binary F] (c : TraceCache F) : Call F → TraceCache F
  | get key => (c.get key).2
  | insert key trace => c.insert key trace
  | getOrRun problem algorithm obj options => (c.getOrRun problem algorithm obj options).2
  | clear => c.clear

/-- The event of a call, read off its answer. -/
def Call.event? [Binary F] (c : TraceCache F) : Call F → Option (Event F)
  | get key => (c.get key).1.map fun _ => .hit key
  | insert key trace => some (.stored key trace)
  | getOrRun problem algorithm obj options =>
    let key := TraceKey.ofOptions problem algorithm options
    match (c.getOrRun problem algorithm obj options).1 with
    | .ok answer => some (if answer.ran then .stored key answer.trace else .hit key)
    | .error _ => none
  | clear => some .cleared

/-- A new cache after some calls, and the log of the calls. -/
def replay [Binary F] (capacity : Nat) (calls : List (Call F)) :
    TraceCache F × List (Event F) :=
  calls.foldl (fun (c, log) call => (call.apply c, (call.event? c).toList ++ log))
    (empty capacity, [])

lemma replay_concat [Binary F] (capacity : Nat) (calls : List (Call F)) (call : Call F) :
    replay capacity (calls ++ [call]) =
      let (c, log) := replay capacity calls
      (call.apply c, (call.event? c).toList ++ log) := by
  simp only [replay, List.foldl_append, List.foldl_cons, List.foldl_nil]

section Calls

variable {c : TraceCache F} {log : List (Event F)} {key : TraceKey} {trace : Trace F}

lemma get_fst (c : TraceCache F) (key : TraceKey) : (c.get key).1 = c.entries[key]? := by
  unfold get
  split <;> simp_all

lemma get_of_some (h : c.entries[key]? = some trace) :
    c.get key = (some trace, { c with order := touched c.order key }) := by
  rw [get, h]

lemma get_of_none (h : c.entries[key]? = none) : c.get key = (none, c) := by
  rw [get, h]

lemma Follows.mem_order (h : Follows c log) (hk : c.entries[key]? = some trace) :
    key ∈ c.order := by
  rw [h.mem_iff, Std.HashMap.mem_iff_isSome_getElem?, hk]
  rfl

/-- A key is found exactly if it is among the keys used last. -/
lemma Follows.get_eq_some_iff (h : Follows c log) :
    (c.get key).1 = some trace ↔
      0 < c.capacity ∧ lastStored key log = some trace ∧
        (usedSince key log).card < c.capacity := by
  have hmem : key ∈ recency log →
      (key ∈ c.order ↔ (usedSince key log).card < c.capacity) := by
    intro hk
    rw [← List.mem_reverse, h.order, mem_take_iff_length_takeWhile hk, length_takeWhile_recency hk]
  rw [get_fst]
  constructor
  · intro hfound
    have hk := h.mem_order hfound
    have hlast : lastStored key log = some trace := by rw [← h.stored key hk, hfound]
    exact ⟨h.capacity_pos hk, hlast, (hmem (mem_recency_of_lastStored hlast)).mp hk⟩
  · rintro ⟨-, hlast, hcard⟩
    rw [h.stored key ((hmem (mem_recency_of_lastStored hlast)).mpr hcard), hlast]

variable [Binary F] {problem : String} {algorithm : Algorithm} {obj : Objective F}
  {options : Options F}

lemma getOrRun_of_some
    (h : c.entries[TraceKey.ofOptions problem algorithm options]? = some trace) :
    c.getOrRun problem algorithm obj options = (.ok ⟨trace, false⟩,
      { c with order := touched c.order (TraceKey.ofOptions problem algorithm options) }) := by
  rw [getOrRun, get_of_some h]

lemma getOrRun_of_ok (h : c.entries[TraceKey.ofOptions problem algorithm options]? = none)
    (hrun : run algorithm obj options = .ok trace) :
    c.getOrRun problem algorithm obj options =
      (.ok ⟨trace, true⟩, c.insert (TraceKey.ofOptions problem algorithm options) trace) := by
  simp only [getOrRun, get_of_none h, hrun]

lemma getOrRun_of_error {e : Failure}
    (h : c.entries[TraceKey.ofOptions problem algorithm options]? = none)
    (hrun : run algorithm obj options = .error e) :
    c.getOrRun problem algorithm obj options = (.error e, c) := by
  simp only [getOrRun, get_of_none h, hrun]

lemma Call.capacity_apply (call : Call F) (c : TraceCache F) :
    (call.apply c).capacity = c.capacity := by
  cases call with
  | get key =>
    rw [Call.apply]
    cases hk : c.entries[key]? with
    | none => rw [get_of_none hk]
    | some trace => rw [get_of_some hk]
  | insert key trace => exact c.capacity_insert key trace
  | getOrRun problem algorithm obj options =>
    rw [Call.apply]
    cases hk : c.entries[TraceKey.ofOptions problem algorithm options]? with
    | some trace => rw [getOrRun_of_some hk]
    | none =>
      cases hrun : run algorithm obj options with
      | ok trace => rw [getOrRun_of_ok hk hrun, c.capacity_insert]
      | error e => rw [getOrRun_of_error hk hrun]
  | clear => rfl

/-- What a call does to the cache is what its event does to the log. -/
lemma Follows.apply (h : Follows c log) (call : Call F) :
    Follows (call.apply c) ((call.event? c).toList ++ log) := by
  cases call with
  | get key =>
    cases hk : c.entries[key]? with
    | none => simpa [Call.apply, Call.event?, get_of_none hk] using h
    | some trace => simpa [Call.apply, Call.event?, get_of_some hk] using h.hit (h.mem_order hk)
  | insert key trace => exact h.insert key trace
  | getOrRun problem algorithm obj options =>
    cases hk : c.entries[TraceKey.ofOptions problem algorithm options]? with
    | some trace =>
      simpa [Call.apply, Call.event?, getOrRun_of_some hk] using h.hit (h.mem_order hk)
    | none =>
      cases hrun : run algorithm obj options with
      | error e => simpa [Call.apply, Call.event?, getOrRun_of_error hk hrun] using h
      | ok trace =>
        simpa [Call.apply, Call.event?, getOrRun_of_ok hk hrun] using h.insert _ trace
  | clear =>
    refine ⟨⟨List.nodup_nil, ?_, rfl, ?_⟩, ?_⟩
    · simp [Call.apply, TraceCache.clear]
    · simp [Call.apply, TraceCache.clear]
    · simp [Call.apply, TraceCache.clear, Call.event?, recency]

lemma replay_follows (capacity : Nat) (calls : List (Call F)) :
    Follows (replay capacity calls).1 (replay capacity calls).2 ∧
      (replay capacity calls).1.capacity = capacity := by
  induction calls using List.reverseRecOn with
  | nil =>
    refine ⟨⟨⟨List.nodup_nil, ?_, rfl, ?_⟩, ?_⟩, rfl⟩
    · simp [replay, empty]
    · simp [replay, empty]
    · simp [replay, empty, recency]
  | append_singleton calls call ih =>
    rw [replay_concat]
    exact ⟨ih.1.apply call, (call.capacity_apply _).trans ih.2⟩

/-- After any calls the cache holds exactly the keys used last, as many as there is room for, each
with the trace stored last, and a method runs only for a key that is not there. -/
theorem replay_holds_last_used (capacity : Nat) (calls : List (Call F)) :
    let (c, log) := replay capacity calls
    c.order.Nodup ∧ (∀ key, key ∈ c.order ↔ key ∈ c.entries) ∧ c.size ≤ capacity ∧
    (∀ key trace, (c.get key).1 = some trace ↔
      0 < capacity ∧ lastStored key log = some trace ∧ (usedSince key log).card < capacity) ∧
    (∀ key, (c.get key).1 = none → (c.get key).2 = c) ∧
    (∀ problem algorithm obj options,
      let key := TraceKey.ofOptions problem algorithm options
      let answer := (c.getOrRun problem algorithm obj options).1
      (key ∉ c.entries → answer = (run algorithm obj options).map fun trace => ⟨trace, true⟩) ∧
      (key ∈ c.entries → ∃ trace, answer = .ok ⟨trace, false⟩)) := by
  obtain ⟨h, hcapacity⟩ := replay_follows capacity calls
  generalize replay capacity calls = state at h hcapacity
  obtain ⟨c, log⟩ := state
  dsimp only at h hcapacity ⊢
  subst hcapacity
  refine ⟨h.nodup, h.mem_iff, ?_, fun key trace => h.get_eq_some_iff, ?_, ?_⟩
  · rw [size, h.size]
    exact h.length_le
  · intro key hmiss
    rw [get_fst] at hmiss
    rw [get_of_none hmiss]
  · intro problem algorithm obj options
    constructor
    · intro hk
      have hmiss := Std.HashMap.getElem?_eq_none hk
      cases hrun : run algorithm obj options with
      | ok trace => rw [getOrRun_of_ok hmiss hrun]; rfl
      | error e => rw [getOrRun_of_error hmiss hrun]; rfl
    · intro hk
      obtain ⟨trace, htrace⟩ := Option.isSome_iff_exists.mp
        (Std.HashMap.mem_iff_isSome_getElem?.mp hk)
      exact ⟨trace, by rw [getOrRun_of_some htrace]⟩

end Calls

end TraceCache
end Downhill
