import Mathlib.Data.List.AList
import Mathlib.Data.List.Induction
import Mathlib.Order.Lattice

/-! # Registers that keep the last write

Writes carry versions, and reach a register that takes every one of them, whatever its version. The
register holds the value of the highest version only while no older write changes it.

* **`NoStaleWrite`**: a write that comes after one of a higher version writes what is there.
* **`NoStaleWrite.map_getLast?`**: then the last write leaves the value of the highest version.
* **`exists_flatMap_split`**: in which batch a write came.
* **`writeAll`**: maps whose entries keep the last write; `lookup_writeAll` reads one. -/

namespace XenonExt

variable {ω ν γ : Type}

/-- **No stale write**: every write that comes after one of a higher version writes the value of the
write right before it. -/
def NoStaleWrite [LT ν] (version : ω → ν) (value : ω → γ) (writes : List ω) : Prop :=
  ∀ earlier last late after, writes = earlier ++ last :: late :: after →
    (∃ newer ∈ earlier ++ [last], version late < version newer) → value late = value last

/-- Writes in the order of their versions are not stale. -/
theorem noStaleWrite_of_pairwise [Preorder ν] {version : ω → ν} {value : ω → γ} {writes : List ω}
    (h : writes.Pairwise fun w w' => version w ≤ version w') : NoStaleWrite version value writes := by
  rintro earlier last late after rfl ⟨newer, hnewer, hlt⟩
  -- the newer write came before the late one
  rw [List.append_cons, List.pairwise_append] at h
  exact absurd (h.2.2 newer hnewer late List.mem_cons_self) (not_le_of_gt hlt)

/-- The first of the writes are without a stale one too. -/
theorem NoStaleWrite.left [LT ν] {version : ω → ν} {value : ω → γ} {writes writes' : List ω}
    (h : NoStaleWrite version value (writes ++ writes')) : NoStaleWrite version value writes := by
  intro earlier last late after hsplit hnewer
  refine h earlier last late (after ++ writes') ?_ hnewer
  rw [hsplit, List.append_assoc, List.cons_append, List.cons_append]

/-- **Without a stale write the register holds the value of the highest version.** -/
theorem NoStaleWrite.map_getLast? [LinearOrder ν] {version : ω → ν} {value : ω → γ}
    {writes : List ω} (h : NoStaleWrite version value writes) (hversions : (writes.map version).Nodup)
    {highest : ω} (hmem : highest ∈ writes)
    (hmax : ∀ w ∈ writes, version w ≤ version highest) :
    writes.getLast?.map value = some (value highest) := by
  induction writes using List.reverseRecOn with
  | nil => exact absurd hmem List.not_mem_nil
  | append_singleton writes w ih =>
      rw [List.getLast?_concat, Option.map_some]
      rcases List.mem_append.mp hmem with hearlier | hlast
      · -- the highest version was there before the last write, which is stale then
        rw [List.map_append, List.nodup_append] at hversions
        have hbefore := ih h.left hversions.1 hearlier
          (fun w' hw' => hmax w' (List.mem_append_left _ hw'))
        obtain ⟨last, hlast, hvalue⟩ := Option.map_eq_some_iff.mp hbefore
        obtain ⟨earlier, rfl⟩ := List.getLast?_eq_some_iff.mp hlast
        have hne : version highest ≠ version w :=
          hversions.2.2 _ (List.mem_map_of_mem hearlier) _ (by simp)
        have hstale : version w < version highest :=
          lt_of_le_of_ne (hmax w (by simp)) hne.symm
        rw [h earlier last w [] (by simp) ⟨highest, hearlier, hstale⟩, hvalue]
      · rw [List.mem_singleton.mp hlast]

/-- Of writes that come in batches of at most one each, the batch a write came in. -/
theorem exists_flatMap_split {β : Type} {f : β → List ω} {batches : List β}
    (hf : ∀ b ∈ batches, (f b).length ≤ 1) {earlier after : List ω} {w : ω}
    (h : batches.flatMap f = earlier ++ w :: after) :
    ∃ before b rest, batches = before ++ b :: rest ∧ before.flatMap f = earlier ∧ f b = [w] := by
  induction batches generalizing earlier with
  | nil => simp at h
  | cons b batches ih =>
      have hbatches : ∀ b ∈ batches, (f b).length ≤ 1 := fun b hb => hf b (List.mem_cons_of_mem _ hb)
      rw [List.flatMap_cons] at h
      match hb : f b with
      | [] =>
          rw [hb, List.nil_append] at h
          obtain ⟨before, b', rest, rfl, hbefore, hb'⟩ := ih hbatches h
          refine ⟨b :: before, b', rest, rfl, ?_, hb'⟩
          rw [List.flatMap_cons, hb, hbefore, List.nil_append]
      | [w'] =>
          rw [hb, List.singleton_append] at h
          cases earlier with
          | nil =>
              obtain ⟨rfl, -⟩ := List.cons.inj h
              exact ⟨[], b, batches, rfl, rfl, hb⟩
          | cons w'' earlier =>
              obtain ⟨rfl, htail⟩ := List.cons.inj h
              obtain ⟨before, b', rest, rfl, hbefore, hb'⟩ := ih hbatches htail
              refine ⟨b :: before, b', rest, rfl, ?_, hb'⟩
              rw [List.flatMap_cons, hb, hbefore, List.singleton_append]
      | _ :: _ :: _ =>
          have hlength := hf b List.mem_cons_self
          rw [hb] at hlength
          simp at hlength

/-! ## Maps -/

section Maps

variable {κ β : Type} [DecidableEq κ] {m : AList fun _ : κ => β} {writes : List (κ × β)} {k : κ}

/-- Writes to a map, one after the other. -/
def writeAll (m : AList fun _ : κ => β) (writes : List (κ × β)) : AList fun _ : κ => β :=
  writes.foldl (fun m w => m.insert w.1 w.2) m

theorem writeAll_concat (w : κ × β) :
    writeAll m (writes ++ [w]) = (writeAll m writes).insert w.1 w.2 :=
  List.foldl_concat ..

/-- **A map keeps the last write of each key.** -/
theorem lookup_writeAll (m : AList fun _ : κ => β) (writes : List (κ × β)) (k : κ) :
    (writeAll m writes).lookup k =
      ((writes.filter fun w => w.1 = k).getLast?.map Prod.snd).or (m.lookup k) := by
  induction writes using List.reverseRecOn with
  | nil => rfl
  | append_singleton writes w ih =>
      rw [writeAll_concat, List.filter_append]
      by_cases hk : w.1 = k
      · subst hk
        have hlast : [w].filter (fun w' => w'.1 = w.1) = [w] := by simp
        rw [AList.lookup_insert, hlast, List.getLast?_concat]
        rfl
      · rw [AList.lookup_insert_ne (Ne.symm hk), ih,
          List.filter_cons_of_neg (by simpa using hk), List.filter_nil, List.append_nil]

/-- What a map of writes has for a key was written. -/
theorem mem_of_lookup_writeAll {v : β} (h : (writeAll ∅ writes).lookup k = some v) :
    (k, v) ∈ writes := by
  rw [lookup_writeAll, AList.lookup_empty, Option.or_none] at h
  obtain ⟨w, hw, rfl⟩ := Option.map_eq_some_iff.mp h
  obtain ⟨hmem, hk⟩ := List.mem_filter.mp (List.mem_of_getLast? hw)
  obtain rfl := of_decide_eq_true hk
  exact hmem

/-- A map of writes has something for the keys that were written. -/
theorem lookup_writeAll_isSome_iff :
    ((writeAll ∅ writes).lookup k).isSome ↔ ∃ w ∈ writes, w.1 = k := by
  rw [lookup_writeAll, AList.lookup_empty, Option.or_none, Option.isSome_map,
    List.getLast?_isSome, ne_eq, List.filter_eq_nil_iff]
  simp only [decide_eq_true_eq, not_forall, not_not, exists_prop]

end Maps

end XenonExt
