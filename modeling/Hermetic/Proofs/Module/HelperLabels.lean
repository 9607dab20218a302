/-
The labels after a module.

After a module stand its two markers, and between them one label for each helper.

* `Helpers.all`, `Boundary.labels_closing`: these labels, in order;
* `Helper.Clash`, `Helper.MarkerClash`: the helpers that have one label between them, and those
  that have the label of a marker;
* `Boundary.nodup_labels_iff`: the labels are different but for these;
* `CodeModule.sealed_labelsDistinct`: so they are for every module that is sealed;
* `CodeModule.exists_label_twice`: the distance to the offset table and the place of the symbol
  `delta` in it have one label.
-/
import Hermetic.Proofs.Module.Outside
import Hermetic.Proofs.Symbol.Schemes
import Mathlib.Data.List.Nodup

namespace Hermetic

/-! ### Labels in order -/

namespace Line

variable {α : Type}

lemma labels_append (lines more : List Line) :
    labels (lines ++ more) = labels lines ++ labels more :=
  List.filterMap_append

lemma labels_flatMap {f : α → List Line} {g : α → String} (h : ∀ a, labels (f a) = [g a])
    (l : List α) : labels (l.flatMap f) = l.map g := by
  induction l with
  | nil => rfl
  | cons a l ih =>
      rw [List.flatMap_cons, labels_append, h, ih, List.map_cons, List.singleton_append]

end Line

/-- The members of a set are different. -/
lemma NameSet.nodup (s : NameSet) : s.toList.Nodup := by
  refine List.Pairwise.imp (fun {a b} (hlt : a < b) => ?_) s.increasing
  rintro rfl
  exact String.lt_irrefl _ hlt

lemma NameMap.nodup_keys (m : NameMap) : (m.toList.map Prod.fst).Nodup := by
  refine List.pairwise_map.mpr (List.Pairwise.imp (fun {p q} (hlt : p.1 < q.1) heq => ?_)
    m.increasing)
  rw [heq] at hlt
  exact String.lt_irrefl _ hlt

namespace Helpers

/-- The helpers that are there and have lines, in the order of these. -/
def all (hs : Helpers) : Arch → List Helper
  | .x86_64 =>
    hs.redirectors.toList.map .redirector ++
      hs.accessors.toList.map (fun p => .accessor p.1 p.2) ++
      hs.gotEntries.toList.map .gotEntry ++
      (if hs.gotDelta then [.gotDelta] else []) ++
      hs.gotOffsets.toList.map (.gotOffset · false) ++
      hs.tableOffsets.toList.map (.gotOffset · true)
  | .aarch64 =>
    hs.redirectors.toList.map .redirector ++
      hs.accessors.toList.map (fun p => .accessor p.1 p.2) ++
      hs.gotEntries.toList.map .gotEntry

variable {arch : Arch} {hs : Helpers} {h : Helper}

lemma mem_all : h ∈ hs.all arch ↔ hs.Holds h ∧ h.Known arch := by
  cases arch <;> rcases h with s | ⟨s, t⟩ | s | ⟨s, _ | _⟩ | _ <;>
    simp [all, Holds, Helper.Known, NameSet.mem_toList]

/-- Every label of the helpers is the name of one of them. -/
lemma labels_helperLines (arch : Arch) (hs : Helpers) :
    Line.labels (Boundary.helperLines arch hs) = (hs.all arch).map (Helper.name arch) := by
  cases arch with
  | x86_64 =>
      have hdelta : Line.labels (if hs.gotDelta then Boundary.x86GotDelta else []) =
          (if hs.gotDelta then [Helper.gotDelta] else []).map (Helper.name .x86_64) := by
        cases hs.gotDelta <;> rfl
      simp only [Boundary.helperLines, Boundary.x86Helpers, Line.labels_append, all,
        List.map_append, List.map_map, hdelta]
      congr 5
      all_goals exact Line.labels_flatMap (fun _ => rfl) _
  | aarch64 =>
      simp only [Boundary.helperLines, Boundary.armHelpers, Line.labels_append, all,
        List.map_append, List.map_map]
      congr 2
      all_goals exact Line.labels_flatMap (fun _ => rfl) _

/-- No helper is written twice. -/
lemma nodup_all (arch : Arch) (hs : Helpers) : (hs.all arch).Nodup := by
  have hset (s : NameSet) {f : String → Helper} (hf : Function.Injective f) :
      (s.toList.map f).Nodup := List.Nodup.map hf s.nodup
  have hmap : (hs.accessors.toList.map fun p => Helper.accessor p.1 p.2).Nodup := by
    refine List.Nodup.map (fun p q hpq => ?_) (List.Nodup.of_map _ hs.accessors.nodup_keys)
    exact Prod.ext (Helper.accessor.inj hpq).1 (Helper.accessor.inj hpq).2
  have hdelta : (if hs.gotDelta then [Helper.gotDelta] else []).Nodup := by
    split <;> simp
  have hredirectors := hset hs.redirectors (f := .redirector) fun _ _ h => Helper.redirector.inj h
  have hentries := hset hs.gotEntries (f := .gotEntry) fun _ _ h => Helper.gotEntry.inj h
  have hoffsets (s : NameSet) (fromTable : Bool) := hset s (f := (.gotOffset · fromTable))
    fun _ _ h => (Helper.gotOffset.inj h).1
  -- the constructors tell one part of the list from the others
  cases arch <;>
    simp only [all, List.nodup_append, hmap, hdelta, hredirectors, hentries, hoffsets, true_and,
      List.mem_append, List.mem_map, List.mem_ite_nil_right, List.mem_singleton] <;> grind

end Helpers

/-- The labels after a module: its markers, and between them those of the helpers. -/
lemma Boundary.labels_closing (b : Boundary) (hs : Helpers) : Line.labels (b.closing hs) =
    (b.marker ++ "_end") ::
      ((hs.all b.arch).map (Helper.name b.arch) ++ [b.marker ++ "_hash"]) := by
  have hattribution : Line.labels (attribution b.debug 2) = [] := by
    cases b.debug <;> rfl
  have hhash : Line.labels (hashLines b.marker) = [b.marker ++ "_hash"] := rfl
  rw [closing, Line.labels_append, Line.labels_append, Line.labels_append, Line.labels_append,
    Helpers.labels_helperLines, hattribution, hhash]
  rfl

/-- The labels after a module do not depend on the source file that they are attributed to. -/
lemma Boundary.labels_closing_congr {b : Boundary} {hs : Helpers} (debug : Option DebugFile) :
    Line.labels ({ b with debug }.closing hs) = Line.labels (b.closing hs) := by
  rw [labels_closing, labels_closing]

/-! ### Helpers with one label -/

namespace Helper

/-- Two helpers with one label between them. -/
inductive Clash : Arch → Helper → Helper → Prop
  /-- The distance to the offset table, and the place of the symbol `delta` in it. -/
  | delta : Clash .x86_64 .gotDelta (.gotOffset "delta" false)
  /-- A redirector for what ends like an entry, and an entry for what starts like a redirector. -/
  | entry {s t : String} : Symbol.Meets "bcm_redirector_" "_GOTPCREL_external" s t →
      Clash .x86_64 (.redirector s) (.gotEntry t)
  /-- A redirector for the end of an accessor, and an accessor for the start of a redirector. -/
  | redirector {arch : Arch} {target : String} :
      Clash arch (.redirector "bss_get") (.accessor "bcm_redirector" target)
  /-- A word for what ends like an accessor, and an accessor for what starts like a word. -/
  | offset {name key target : String} {fromTable : Bool} :
      Symbol.Meets (Symbol.offsetFront fromTable) "_bss_get" name key →
      Clash .x86_64 (.gotOffset name fromTable) (.accessor key target)
  /-- A loader for the end of an accessor, and an accessor for the start of a loader. -/
  | loader {target : String} :
      Clash .aarch64 (.gotEntry "bss_get") (.accessor ".Lboringssl_loadgot" target)

/-- What the markers of a module add to its name behind the helpers and in front of them. -/
def markerEnds : List String :=
  ["_end", "_hash"]

/-- A helper whose label is that of a marker. -/
inductive MarkerClash (marker ending : String) : Arch → Helper → Prop
  | redirector {arch : Arch} {s : String} : Symbol.Meets "bcm_redirector_" ending s marker →
      MarkerClash marker ending arch (.redirector s)
  | offset {name : String} {fromTable : Bool} :
      Symbol.Meets (Symbol.offsetFront fromTable) ending name marker →
      MarkerClash marker ending .x86_64 (.gotOffset name fromTable)
  | loader {s : String} : Symbol.Meets ".Lboringssl_loadgot_" ending s marker →
      MarkerClash marker ending .aarch64 (.gotEntry s)

/-- What is known of the symbols of redirectors and entries: they are public, and no names of
accessors. -/
def Outside : Helper → Prop
  | redirector s | gotEntry s =>
    Symbol.isDotLocal s = false ∧ Text.endsWith "_bss_get" s = false
  | _ => True

variable {arch : Arch} {a b : Helper}

lemma Clash.ne (h : Clash arch a b) : a ≠ b := by
  cases h <;> nofun

/-- Helpers that clash have one label. -/
lemma Clash.name_eq (h : Clash arch a b) : a.name arch = b.name arch := by
  cases h with
  | delta => decide +kernel
  | entry hmeets =>
      exact (Symbol.append_eq_append_iff (by decide +kernel) (by decide +kernel)).mpr hmeets
  | redirector =>
      exact (Symbol.redirector_eq_accessor_iff (by decide +kernel)).mpr ⟨rfl, rfl⟩
  | offset hmeets =>
      exact (Symbol.append_eq_append_iff (Symbol.offsetFront_mem _) (by decide +kernel)).mpr hmeets
  | loader => exact (Symbol.gotHelper_eq_accessor_iff (by decide +kernel)).mpr ⟨rfl, rfl⟩

/-- A public name is not local. -/
lemma ne_of_isDotLocal {name name' : String} (h : Symbol.isDotLocal name = false)
    (h' : Symbol.isDotLocal name' = true) : name ≠ name' := by
  rintro rfl
  rw [h] at h'
  cases h'

/-- A redirector has the label of another helper only if the two clash. -/
lemma clash_of_redirector {s : String} (ha : Outside (.redirector s)) (hb : b.Known arch)
    (hout : b.Outside) (h : Symbol.redirector s = b.name arch) :
    b = .redirector s ∨ Clash arch (.redirector s) b := by
  have hpublic := Symbol.isDotLocal_redirector s
  cases b with
  | redirector t =>
      left
      rw [(String.append_right_inj _).mp h]
  | accessor key target =>
      obtain ⟨rfl, rfl⟩ := (Symbol.redirector_eq_accessor_iff ha.2).mp h
      exact .inr .redirector
  | gotEntry t =>
      cases arch with
      | x86_64 =>
          exact .inr (.entry
            ((Symbol.append_eq_append_iff (by decide +kernel) (by decide +kernel)).mp h))
      | aarch64 => exact (ne_of_isDotLocal hpublic (Symbol.isDotLocal_gotHelper t) h).elim
  | gotOffset name fromTable =>
      exact (ne_of_isDotLocal hpublic (Symbol.isDotLocal_gotOffsetSlot name fromTable) h).elim
  | gotDelta => exact (ne_of_isDotLocal hpublic Symbol.isDotLocal_gotDelta h).elim

/-- An accessor has the label of a helper that is no redirector only if that one is an accessor for
the same symbol, or the two clash. -/
lemma clash_of_accessor {key : String} (target : String) (hb : b.Known arch) (hout : b.Outside)
    (hredirector : ∀ s, b ≠ .redirector s) (h : Symbol.accessor key = b.name arch) :
    (∃ target', b = .accessor key target') ∨ Clash arch b (.accessor key target) := by
  cases b with
  | redirector s => exact (hredirector s rfl).elim
  | accessor key' target' =>
      left
      exact ⟨target', by rw [(String.append_left_inj _).mp h]⟩
  | gotEntry t =>
      cases arch with
      | x86_64 => exact (Symbol.accessor_ne_gotSlot key t h).elim
      | aarch64 =>
          obtain ⟨rfl, rfl⟩ := (Symbol.gotHelper_eq_accessor_iff hout.2).mp h.symm
          exact .inr .loader
  | gotOffset name fromTable =>
      cases arch with
      | x86_64 =>
          exact .inr (.offset ((Symbol.append_eq_append_iff (Symbol.offsetFront_mem fromTable)
            (by decide +kernel)).mp h.symm))
      | aarch64 => exact hb.elim
  | gotDelta => exact (Symbol.accessor_ne_gotDelta key h).elim

/-- An entry has the label of no other helper that is neither redirector nor accessor. -/
lemma eq_of_gotEntry {s : String} (ha : Outside (.gotEntry s)) (hb : b.Known arch)
    (hredirector : ∀ s, b ≠ .redirector s) (haccessor : ∀ key target, b ≠ .accessor key target)
    (h : (Helper.gotEntry s).name arch = b.name arch) : b = .gotEntry s := by
  cases b with
  | redirector t => exact (hredirector t rfl).elim
  | accessor key target => exact (haccessor key target rfl).elim
  | gotEntry t =>
      cases arch with
      | x86_64 => rw [(String.append_left_inj _).mp h]
      | aarch64 => rw [(String.append_right_inj _).mp h]
  | gotOffset name fromTable =>
      cases arch with
      | x86_64 =>
          exact (ne_of_isDotLocal (Symbol.isDotLocal_gotSlot ha.1)
            (Symbol.isDotLocal_gotOffsetSlot name fromTable) h).elim
      | aarch64 => exact hb.elim
  | gotDelta =>
      cases arch with
      | x86_64 =>
          exact (ne_of_isDotLocal (Symbol.isDotLocal_gotSlot ha.1)
            Symbol.isDotLocal_gotDelta h).elim
      | aarch64 => exact hb.elim

/-- The words for offsets have different labels, but for the symbol `delta`. -/
lemma clash_of_gotDelta {name : String} {fromTable : Bool} (hb : Known arch .gotDelta)
    (h : Symbol.gotDelta = Symbol.gotOffsetSlot name fromTable) :
    Clash arch .gotDelta (.gotOffset name fromTable) := by
  obtain ⟨rfl, rfl⟩ := Symbol.gotDelta_eq_gotOffsetSlot_iff.mp h
  cases arch with
  | x86_64 => exact .delta
  | aarch64 => exact hb.elim

/-- Two helpers are the same, or accessors for one symbol, or they clash. -/
def Alike (arch : Arch) (a b : Helper) : Prop :=
  a = b ∨ (∃ key target target', a = .accessor key target ∧ b = .accessor key target') ∨
    Clash arch a b ∨ Clash arch b a

lemma Alike.symm (h : Alike arch a b) : Alike arch b a := by
  rcases h with h | ⟨key, target, target', ha, hb⟩ | h | h
  · exact .inl h.symm
  · exact .inr (.inl ⟨key, target', target, hb, ha⟩)
  · exact .inr (.inr (.inr h))
  · exact .inr (.inr (.inl h))

/-- Every pair of ways to make a label is compared once, and the other way round by symmetry. -/
lemma alike_of_name_eq (hka : a.Known arch) (hkb : b.Known arch) (ha : a.Outside) (hb : b.Outside)
    (h : a.name arch = b.name arch) : Alike arch a b := by
  have hredirector {s : String} {c : Helper} (hs : Outside (.redirector s)) (hkc : c.Known arch)
      (hc : c.Outside) (h : Symbol.redirector s = c.name arch) : Alike arch (.redirector s) c :=
    (clash_of_redirector hs hkc hc h).imp Eq.symm fun hclash => .inr (.inl hclash)
  have haccessor {key target : String} {c : Helper} (hkc : c.Known arch) (hc : c.Outside)
      (hne : ∀ s, c ≠ .redirector s) (h : Symbol.accessor key = c.name arch) :
      Alike arch (.accessor key target) c := by
    rcases clash_of_accessor target hkc hc hne h with ⟨target', rfl⟩ | hclash
    · exact .inr (.inl ⟨key, target, target', rfl, rfl⟩)
    · exact .inr (.inr (.inr hclash))
  have hentry {s : String} {c : Helper} (hs : Outside (.gotEntry s)) (hkc : c.Known arch)
      (hredirector : ∀ s, c ≠ .redirector s) (haccessor : ∀ key target, c ≠ .accessor key target)
      (h : (Helper.gotEntry s).name arch = c.name arch) : Alike arch (.gotEntry s) c :=
    .inl (eq_of_gotEntry hs hkc hredirector haccessor h).symm
  -- only the distance to the table is left for itself
  cases a with
  | redirector s => exact hredirector ha hkb hb h
  | accessor key target =>
      cases b with
      | redirector s => exact (hredirector hb hka ha h.symm).symm
      | _ => exact haccessor hkb hb nofun h
  | gotEntry s =>
      cases b with
      | redirector t => exact (hredirector hb hka ha h.symm).symm
      | accessor key target => exact (haccessor hka ha nofun h.symm).symm
      | _ => exact hentry ha hkb nofun nofun h
  | gotOffset name fromTable =>
      cases b with
      | redirector t => exact (hredirector hb hka ha h.symm).symm
      | accessor key target => exact (haccessor hka ha nofun h.symm).symm
      | gotEntry s => exact (hentry hb hka nofun nofun h.symm).symm
      | gotOffset name' fromTable' =>
          obtain ⟨rfl, rfl⟩ := Symbol.gotOffsetSlot_inj.mp h
          exact .inl rfl
      | gotDelta => exact .inr (.inr (.inr (clash_of_gotDelta hkb h.symm)))
  | gotDelta =>
      cases b with
      | redirector t => exact (hredirector hb hka ha h.symm).symm
      | accessor key target => exact (haccessor hka ha nofun h.symm).symm
      | gotEntry s => exact (hentry hb hka nofun nofun h.symm).symm
      | gotOffset name fromTable => exact .inr (.inr (.inl (clash_of_gotDelta hka h)))
      | gotDelta => exact .inl rfl

/-- A helper has the label of a marker exactly if the two clash. -/
lemma markerClash_iff {marker ending : String} (hending : ending ∈ markerEnds)
    (ha : a.Known arch) :
    marker ++ ending = a.name arch ↔ MarkerClash marker ending arch a := by
  -- an ending of a marker is one of the known ends, and its last letter is no other's
  have hfacts : ∀ ending ∈ markerEnds, ending ∈ Symbol.afters ∧ ending.toList ≠ [] ∧
      ending.toList.getLast? ∉ [some 't', some 'l', some 'a'] := by decide +kernel
  obtain ⟨hafter, hne, hlast⟩ := hfacts ending hending
  have hmeets {before s : String} (hb : before ∈ Symbol.befores) :
      marker ++ ending = before ++ s ↔ Symbol.Meets before ending s marker :=
    eq_comm.trans (Symbol.append_eq_append_iff hb hafter)
  have hother {s after : String} (hafter : after.toList ≠ [])
      (hc : after.toList.getLast? ∈ [some 't', some 'l', some 'a']) :
      marker ++ ending ≠ s ++ after :=
    Symbol.append_ne_append hne hafter fun hsame => hlast (hsame ▸ hc)
  constructor
  · intro h
    cases a with
    | redirector s => exact .redirector ((hmeets (by decide +kernel)).mp h)
    | accessor key target => exact (hother (by decide +kernel) (by decide +kernel) h).elim
    | gotEntry s =>
        cases arch with
        | x86_64 => exact (hother (by decide +kernel) (by decide +kernel) h).elim
        | aarch64 => exact .loader ((hmeets (by decide +kernel)).mp h)
    | gotOffset name fromTable =>
        cases arch with
        | x86_64 => exact .offset ((hmeets (Symbol.offsetFront_mem fromTable)).mp h)
        | aarch64 => exact ha.elim
    | gotDelta =>
        have hsplit : Symbol.gotDelta = ".Lboringssl_got" ++ "_delta" := by decide +kernel
        exact (hother (by decide +kernel) (by decide +kernel) (h.trans hsplit)).elim
  · intro h
    cases h with
    | redirector hclash => exact (hmeets (by decide +kernel)).mpr hclash
    | offset hclash => exact (hmeets (Symbol.offsetFront_mem _)).mpr hclash
    | loader hclash => exact (hmeets (by decide +kernel)).mpr hclash

/-- A marker that clashes with a helper starts like the label of one. -/
lemma MarkerClash.head? {marker ending : String} (h : MarkerClash marker ending arch a) :
    marker.toList.head? = some 'b' ∨ marker.toList.head? = some '.' := by
  have hfacts : ∀ before ∈ Symbol.befores, before.toList ≠ [] ∧
      before.toList.head? = before.toList.dropLast.head? ∧
      (before.toList.head? = some 'b' ∨ before.toList.head? = some '.') := by decide +kernel
  have hmeets {before s : String} (hb : before ∈ Symbol.befores)
      (h : Symbol.Meets before ending s marker) :
      marker.toList.head? = some 'b' ∨ marker.toList.head? = some '.' := by
    obtain ⟨hne, hdrop, hhead⟩ := hfacts before hb
    cases h with
    | apart middle => rwa [String.toList_append, List.head?_append_of_ne_nil _ hne]
    | joined hbefore hafter =>
        have hlist : before.toList = marker.toList ++ ['_'] := by
          rw [hbefore, String.toList_append]
          rfl
        rw [hdrop, hlist, List.dropLast_concat] at hhead
        exact hhead
  cases h with
  | redirector h => exact hmeets (by decide +kernel) h
  | offset h => exact hmeets (Symbol.offsetFront_mem _) h
  | loader h => exact hmeets (by decide +kernel) h

/-- No helper clashes with the marker that a module has if none is given. -/
lemma not_markerClash_defaultMarker (ending : String) (arch : Arch) (a : Helper) :
    ¬ MarkerClash Symbol.defaultMarker ending arch a := by
  intro h
  have hhead : Symbol.defaultMarker.toList.head? ≠ some 'b' ∧
      Symbol.defaultMarker.toList.head? ≠ some '.' := by decide +kernel
  exact h.head?.elim hhead.1 hhead.2

end Helper

/-! ### Modules -/

/-- Accessors for one symbol are the same. -/
lemma Helpers.target_eq_of_holds {hs : Helpers} {key target target' : String}
    (h : hs.Holds (.accessor key target)) (h' : hs.Holds (.accessor key target')) :
    target = target' :=
  congrArg Prod.snd (List.inj_on_of_nodup_map hs.accessors.nodup_keys h h' rfl)

/-- The labels after a module are different exactly if no two helpers clash, and none with a
marker. -/
lemma Boundary.nodup_labels_iff {arch : Arch} {hs : Helpers} (marker : String)
    (debug : Option DebugFile) (hknown : ∀ h, hs.Holds h → h.Known arch ∧ h.Outside) :
    (Line.labels (Boundary.closing ⟨arch, marker, debug⟩ hs)).Nodup ↔
      (∀ a b, hs.Holds a → hs.Holds b → ¬ Helper.Clash arch a b) ∧
        ∀ a, hs.Holds a → ∀ ending ∈ Helper.markerEnds,
          ¬ Helper.MarkerClash marker ending arch a := by
  have hall (a : Helper) : a ∈ hs.all arch ↔ hs.Holds a :=
    Helpers.mem_all.trans (and_iff_left_of_imp fun h => (hknown a h).1)
  have hmarker {a : Helper} (ha : hs.Holds a) {ending : String}
      (hending : ending ∈ Helper.markerEnds) :
      marker ++ ending = a.name arch ↔ Helper.MarkerClash marker ending arch a :=
    Helper.markerClash_iff hending (hknown a ha).1
  -- the two labels of the marker itself are different
  have hends : marker ++ "_end" ≠ marker ++ "_hash" :=
    fun h => absurd ((String.append_right_inj _).mp h) (by decide)
  rw [labels_closing, List.nodup_cons, List.nodup_append,
    List.nodup_map_iff_inj_on (Helpers.nodup_all arch hs)]
  simp only [hall, List.mem_append, List.mem_map, List.mem_singleton]
  constructor
  · rintro ⟨hend, hinj, -, hhash⟩
    refine ⟨fun a b ha hb hclash => hclash.ne (hinj a ha b hb hclash.name_eq),
      fun a ha ending hending hclash => ?_⟩
    have hlabel := (hmarker ha hending).mpr hclash
    rcases List.mem_pair.mp hending with rfl | rfl
    · exact hend (.inl ⟨a, ha, hlabel.symm⟩)
    · exact hhash _ ⟨a, ha, rfl⟩ _ rfl hlabel.symm
  · rintro ⟨hclash, hmarkers⟩
    refine ⟨?_, fun a ha b hb h => ?_, List.nodup_singleton _, ?_⟩
    · rintro (⟨a, ha, hlabel⟩ | hlabel)
      · exact hmarkers a ha "_end" (by decide) ((hmarker ha (by decide)).mp hlabel.symm)
      · exact hends hlabel
    · obtain ⟨hka, houta⟩ := hknown a ha
      obtain ⟨hkb, houtb⟩ := hknown b hb
      -- two helpers with one label are alike: the same, two accessors of one key, or a clash
      rcases Helper.alike_of_name_eq hka hkb houta houtb h with
        heq | ⟨key, target, target', rfl, rfl⟩ | h | h
      · exact heq
      · rw [Helpers.target_eq_of_holds ha hb]
      · exact (hclash a b ha hb h).elim
      · exact (hclash b a hb ha h).elim
    · rintro _ ⟨a, ha, rfl⟩ _ rfl hlabel
      exact hmarkers a ha "_hash" (by decide) ((hmarker ha (by decide)).mp hlabel.symm)

namespace CodeModule

variable {m : CodeModule} {r : Sealed} {files : List SourceFile} {symbols : SymbolTable}
variable {emissions : List Emission}

/-- What a module ends with has lines, and is for symbols as they are outside it. -/
lemma SealedFrom.known_of_holds (h : SealedFrom m r files symbols emissions) {helper : Helper}
    (hh : r.helpers.Holds helper) : helper.Known r.arch ∧ helper.Outside := by
  have hexact := h.helpersExact
  have houtside {symbol : String}
      (hs : symbol ∈ r.helpers.redirectors ∨ symbol ∈ r.helpers.gotEntries) :
      Symbol.isDotLocal symbol = false ∧ Text.endsWith "_bss_get" symbol = false := by
    obtain ⟨-, hlocal, -, hsynthesized⟩ := h.helpersNamed.outside symbol hs
    exact ⟨hlocal, (Bool.or_eq_false_iff.mp hsynthesized).1⟩
  have hx86 (harch : r.arch = .x86_64) : helper.Known r.arch := by
    rw [harch]
    trivial
  cases helper with
  | redirector s =>
      refine ⟨?_, houtside (.inl hh)⟩
      cases r.arch <;> trivial
  | accessor key target =>
      refine ⟨?_, trivial⟩
      cases r.arch <;> trivial
  | gotEntry s =>
      refine ⟨?_, houtside (.inr hh)⟩
      cases r.arch <;> trivial
  | gotOffset name fromTable => exact ⟨hx86 ((hexact.gotOffsets name fromTable).mp hh).1, trivial⟩
  | gotDelta => exact ⟨hx86 (hexact.gotDelta.mp hh).1, trivial⟩

/-- The labels after every module that is sealed are different exactly if no two helpers clash, and
none with a marker. -/
theorem sealed_labelsDistinct (h : m.sealed = .ok r) : ∃ files symbols emissions,
    SealedFrom m r files symbols emissions ∧
      ((Line.labels (Boundary.closing ⟨r.arch, m.marker, debugFile files⟩ r.helpers)).Nodup ↔
        (∀ a b, r.helpers.Holds a → r.helpers.Holds b → ¬ Helper.Clash r.arch a b) ∧
          ∀ a, r.helpers.Holds a → ∀ ending ∈ Helper.markerEnds,
            ¬ Helper.MarkerClash m.marker ending r.arch a) := by
  obtain ⟨files, symbols, emissions, hfrom⟩ := exists_sealedFrom h
  exact ⟨files, symbols, emissions, hfrom,
    Boundary.nodup_labels_iff m.marker (debugFile files) fun _ hh => hfrom.known_of_holds hh⟩

/-- A call, a load and common storage: no two helpers clash. -/
theorem sealed_labelsDistinct_storage :
    let m := single .x86_64 "call f@PLT\nmovq g@GOTPCREL(%rip), %rax\n.comm v,8\n"
    ∃ r files symbols emissions, m.sealed = .ok r ∧ SealedFrom m r files symbols emissions ∧
      (Line.labels (Boundary.closing ⟨r.arch, m.marker, debugFile files⟩ r.helpers)).Nodup ∧
      ∀ a b, r.helpers.Holds a → r.helpers.Holds b → ¬ Helper.Clash r.arch a b := by
  intro m
  have hok : m.sealed.toOption.any (fun r =>
      (Line.labels (Boundary.closing ⟨r.arch, m.marker, none⟩ r.helpers)).Nodup) = true := by
    decide +kernel
  obtain ⟨r, h, hr⟩ := Outcome.exists_of_any hok
  obtain ⟨files, symbols, emissions, hfrom, hiff⟩ := sealed_labelsDistinct h
  have hnodup : (Line.labels
      (Boundary.closing ⟨r.arch, m.marker, debugFile files⟩ r.helpers)).Nodup := by
    rw [← Boundary.labels_closing_congr none]
    exact of_decide_eq_true hr
  exact ⟨r, files, symbols, emissions, h, hfrom, hnodup, (hiff.mp hnodup).1⟩

/-- The place of the symbol `delta` in the offset table, and the distance to the table: both words
have the label `.Lboringssl_got_delta`. -/
theorem exists_label_twice :
    let m := single .x86_64 "\tmovabsq $delta@GOT, %rax\n\tleaq _GLOBAL_OFFSET_TABLE_(%rip), %rbx\n"
    ∃ r files symbols emissions, m.sealed = .ok r ∧ SealedFrom m r files symbols emissions ∧
      Line.labels (Boundary.closing ⟨r.arch, m.marker, debugFile files⟩ r.helpers) =
        ["BORINGSSL_bcm_text_end", ".Lboringssl_got_delta", ".Lboringssl_got_delta",
          "BORINGSSL_bcm_text_hash"] ∧
      ¬ (Line.labels (Boundary.closing ⟨r.arch, m.marker, debugFile files⟩ r.helpers)).Nodup := by
  intro m
  have hok : m.sealed.toOption.any (fun r =>
      Line.labels (Boundary.closing ⟨r.arch, m.marker, none⟩ r.helpers) =
        ["BORINGSSL_bcm_text_end", ".Lboringssl_got_delta", ".Lboringssl_got_delta",
          "BORINGSSL_bcm_text_hash"]) = true := by decide +kernel
  obtain ⟨r, h, hr⟩ := Outcome.exists_of_any hok
  obtain ⟨files, symbols, emissions, hfrom⟩ := exists_sealedFrom h
  have hlabels : Line.labels (Boundary.closing ⟨r.arch, m.marker, debugFile files⟩ r.helpers) =
      ["BORINGSSL_bcm_text_end", ".Lboringssl_got_delta", ".Lboringssl_got_delta",
        "BORINGSSL_bcm_text_hash"] := by
    rw [← Boundary.labels_closing_congr none]
    exact of_decide_eq_true hr
  refine ⟨r, files, symbols, emissions, h, hfrom, hlabels, ?_⟩
  rw [hlabels]
  decide +kernel

end CodeModule

end Hermetic
