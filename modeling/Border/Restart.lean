/-
# Does an update survive a restart?

`serve` reads the file it is given, and every later `Save` writes two files whose names are
made from the name of that file: its extension is cut off, and `.json` and `.yaml` are put in
its place.  A restart reads the file it is given again.

* `restart_iff` : after an update that succeeded, the configuration a restart loads has the
  update's zones, each under its full name, exactly when the path ends in `.json` or `.yaml`
  and no name of the update ends in two dots; for any other path a restart loads what the
  file held at the first start;
* `restart_reverts` : the path `/etc/border/config.yml`.
-/
import Border.ConfigChain
import Border.ConfigRounds
import Border.LoadSafety
import Border.Persistence

namespace Border

open GoJson GoMap

variable {β : Type}

/-! ## The zones an update means -/

/-- A zone as it is meant: every name is full, and the NS entry has a TTL. -/
def Zone.completed (z : Zone) : Zone := z.withDefaultTTL.rename addDot

/-- Every zone of `p` stands in `q`, under its full name and as it is meant, and nothing
else does. -/
structure ZonesRestored (p q : Zones) : Prop where
  zones : ∀ key zone, p.lookup key = some zone →
    exportedAt q (addDot key) = some (zone.map fun z => z.completed.exported)
  keys : ∀ key ∈ q, ∃ k ∈ p, addDot k = key

/-- A configuration has what another one means. -/
structure Restored (d d' : ConfigData) : Prop where
  shutdownWait : d'.shutdownWait = d.shutdownWait
  authKey : d'.authKey = d.authKey
  listen : d'.listen = d.listen
  peers : d'.peers = d.peers
  zones : ZonesRestored d.zones d'.zones

/-- No name ends in two dots, and zones with the same full name are the same. -/
structure Unambiguous (zones : Zones) : Prop where
  names : ZonesNames NoEmptyLabel zones
  clash : ∀ k l zone zone', zones.lookup k = some zone → zones.lookup l = some zone' →
    addDot k = addDot l →
      zone.map (fun z => z.completed.exported) = zone'.map fun z => z.completed.exported

/-! ## Names -/

/-- A name without an empty label is full after a dot is put behind it. -/
theorem noEmptyLabel_iff_dotted (name : String) : NoEmptyLabel name ↔ Dotted (addDot name) := by
  unfold NoEmptyLabel Dotted
  by_cases hdot : HasDot name
  · rw [addDot_of_hasDot hdot]
    exact ⟨fun h => ⟨hdot, h⟩, fun h => h.2⟩
  · have htrim : trimDot name = name := if_neg hdot
    have hback : trimDot (addDot name) = name := by
      have hcat := trimDot_append_dot (hasDot_addDot name)
      rw [show addDot name = name ++ "." from if_neg hdot] at hcat ⊢
      exact (String.append_left_inj _).mp hcat
    rw [htrim, hback]
    exact ⟨fun h => ⟨hasDot_addDot name, h⟩, fun h => h.2⟩

/-- Putting a dot behind a name and taking one off again. -/
theorem trimDot_addDot (name : String) : trimDot (addDot name) = trimDot name := by
  by_cases hdot : HasDot name
  · rw [addDot_of_hasDot hdot]
  · have hcat := trimDot_append_dot (hasDot_addDot name)
    rw [show addDot name = name ++ "." from if_neg hdot] at hcat ⊢
    rw [(String.append_left_inj _).mp hcat]
    exact (if_neg hdot).symm

/-- A renaming that takes dots off the end of a name: names without an empty label are full
again with one dot, and the others are shorter than they were. -/
structure Trims (f : String → String) : Prop where
  keep : ∀ name, NoEmptyLabel name → addDot (f name) = addDot name
  shrink : ∀ name, ¬ NoEmptyLabel name → (addDot (f name)).length < name.length

theorem hasDot_of_emptyLabel {name : String} (h : ¬ NoEmptyLabel name) : HasDot name := by
  by_contra hdot
  apply h
  unfold NoEmptyLabel
  rw [trimDot_of_not_hasDot hdot]
  exact hdot

theorem trims_trimDot : Trims trimDot := by
  refine ⟨fun name hname => ?_, fun name hname => ?_⟩
  · by_cases hdot : HasDot name
    · rw [addDot_of_hasDot hdot]
      exact (dotted_iff name).mp ⟨hdot, hname⟩
    · rw [trimDot_of_not_hasDot hdot]
  · rw [addDot_of_hasDot (not_not.mp hname)]
    have hlen := length_trimDot (hasDot_of_emptyLabel hname)
    omega

/-- Trimming once more. -/
theorem Trims.trimDot_comp {f : String → String} (hf : Trims f) : Trims (trimDot ∘ f) := by
  have hstep : ∀ name, addDot (trimDot (f name)) = addDot (trimDot (addDot (f name))) := fun name =>
    by rw [trimDot_addDot]
  refine ⟨fun name hname => ?_, fun name hname => ?_⟩
  · show addDot (trimDot (f name)) = addDot name
    rw [hstep, hf.keep name hname]
    exact (dotted_iff _).mp ((noEmptyLabel_iff_dotted name).mp hname)
  · show (addDot (trimDot (f name))).length < name.length
    have hlt := hf.shrink name hname
    rw [hstep]
    by_cases hlabel : NoEmptyLabel (addDot (f name))
    · rw [trims_trimDot.keep _ hlabel, show addDot (addDot (f name)) = addDot (f name) from
        if_pos (hasDot_addDot _)]
      exact hlt
    · exact lt_trans (trims_trimDot.shrink _ hlabel) hlt

/-! ## Zones under other names -/

/-- Only the names of a zone matter to a renaming. -/
theorem Zone.rename_congr {f g : String → String} {z : Zone}
    (h : ∀ name ∈ z.names, f name = g name) : z.rename f = z.rename g := by
  obtain ⟨soa, ns, records⟩ := z
  unfold Zone.names at h
  unfold Zone.rename
  congr 1
  · cases soa with
    | none => rfl
    | some soa =>
      have hdomain : f soa.domain = g soa.domain := h _ (by simp)
      have hadmin : f soa.admin = g soa.admin := h _ (by simp)
      simp only [Option.map_some, SOA.rename, hdomain, hadmin]
  · cases ns with
    | none => rfl
    | some ns =>
      have hservers : ns.servers.map f = ns.servers.map g := by
        apply List.map_congr_left
        intro server hserver
        exact h server (by simp [hserver])
      simp only [Option.map_some, NS.rename, hservers]
  · cases records with
    | none => rfl
    | some rs =>
      simp only [Option.map_some, Option.some.injEq]
      apply List.map_congr_left
      intro r hr
      cases r with
      | none => rfl
      | some r =>
        have hname : f r.name = g r.name := by
          apply h
          exact List.mem_append_right _ (List.mem_filterMap.mpr ⟨some r, hr, rfl⟩)
        simp only [Option.map_some, Record.rename, hname]

theorem Zone.withDefaultTTL_rename (f : String → String) (z : Zone) :
    (z.rename f).withDefaultTTL = z.withDefaultTTL.rename f := by
  have hmin : (z.rename f).minTTL = z.minTTL := by
    unfold Zone.minTTL Zone.rename
    cases z.soa <;> rfl
  unfold Zone.withDefaultTTL
  rw [hmin]
  unfold Zone.rename
  congr 1
  cases z.ns with
  | none => rfl
  | some ns =>
    simp only [Option.map_some, NS.withDefaultTTL, NS.rename]
    split_ifs <;> rfl

theorem Zone.exported_exported (z : Zone) : z.exported.exported = z.exported := by
  unfold Zone.exported
  cases z.records with
  | none => rfl
  | some rs =>
    simp only [Option.map_some, List.map_map, Zone.mk.injEq, true_and, Option.some.injEq]
    apply List.map_congr_left
    intro r _
    cases r <;> rfl

theorem Zone.names_exported (z : Zone) : z.exported.names = z.names := by
  unfold Zone.names Zone.exported
  cases z.records with
  | none => rfl
  | some rs =>
    simp only [Option.map_some, Slice.elems, Option.getD_some, List.filterMap_map]
    congr 1
    apply List.filterMap_congr
    intro r _
    cases r <;> rfl

theorem Zone.names_withDefaultTTL (z : Zone) : z.withDefaultTTL.names = z.names := by
  unfold Zone.names Zone.withDefaultTTL NS.withDefaultTTL
  cases z.ns with
  | none => rfl
  | some ns =>
    simp only [Option.map_some]
    split_ifs <;> rfl

theorem Zone.names_completed (z : Zone) : z.completed.names = z.names.map addDot := by
  rw [Zone.completed, Zone.names_rename, Zone.names_withDefaultTTL]

theorem Zone.completed_rename (f : String → String) (z : Zone) :
    (z.rename f).completed = z.withDefaultTTL.rename (addDot ∘ f) := by
  rw [Zone.completed, Zone.withDefaultTTL_rename, Zone.rename_rename]

/-- **When a zone is meant the same with fewer dots.** -/
theorem Trims.completed_eq_iff {f : String → String} (hf : Trims f) (z : Zone) :
    (z.rename f).completed.exported = z.completed.exported ↔
      ∀ name ∈ z.names, NoEmptyLabel name := by
  constructor
  · intro h
    have hnames := congrArg Zone.names h
    rw [Zone.names_exported, Zone.names_exported, Zone.names_completed, Zone.names_completed,
      Zone.names_rename, List.map_map, List.map_inj_left] at hnames
    intro name hname
    by_contra hlabel
    have hlt := hf.shrink name hlabel
    rw [show addDot (f name) = addDot name from hnames name hname,
      addDot_of_hasDot (hasDot_of_emptyLabel hlabel)] at hlt
    exact absurd hlt (lt_irrefl _)
  · intro h
    rw [Zone.completed_rename, Zone.completed]
    congr 1
    refine Zone.rename_congr fun name hname => ?_
    rw [Zone.names_withDefaultTTL] at hname
    exact hf.keep name (h name hname)

/-! ## The way from one map of zones to another -/

/-- A map of zones made from another one: a key `k` has become `f k`, and what is saved of a
zone `z` that of `g z`.  Keys may meet. -/
structure ZoneImage (f : String → String) (g : Zone → Zone) (p q : Zones) : Prop where
  mem_iff : ∀ key, key ∈ q ↔ ∃ k ∈ p, f k = key
  source : ∀ key saved, exportedAt q key = some saved →
    ∃ k zone, p.lookup k = some zone ∧ f k = key ∧ saved = zone.map fun z => (g z).exported

section ZoneImage

variable {f f' : String → String} {g g' : Zone → Zone} {p q r : Zones}

/-- Agreement is all that is asked of the result. -/
theorem ZoneImage.of_agree (h : ZoneImage f g p q) (hagree : ZonesAgree r q) :
    ZoneImage f g p r := by
  refine ⟨fun key => hagree.mem_iff.trans (h.mem_iff key), fun key saved hsaved => ?_⟩
  rw [hagree key] at hsaved
  exact h.source key saved hsaved

/-- One way after the other; the second looks at nothing but what is saved. -/
theorem ZoneImage.comp (h : ZoneImage f g p q) (h' : ZoneImage f' g' q r)
    (hg' : ∀ z, (g' z.exported).exported = (g' z).exported) :
    ZoneImage (f' ∘ f) (g' ∘ g) p r := by
  constructor
  · intro key
    rw [h'.mem_iff key]
    constructor
    · rintro ⟨k', hk', rfl⟩
      obtain ⟨k, hk, rfl⟩ := (h.mem_iff k').mp hk'
      exact ⟨k, hk, rfl⟩
    · rintro ⟨k, hk, rfl⟩
      exact ⟨f k, (h.mem_iff (f k)).mpr ⟨k, hk, rfl⟩, rfl⟩
  · intro key saved hsaved
    obtain ⟨k', zone', hlookup', rfl, rfl⟩ := h'.source key saved hsaved
    have hexported : exportedAt q k' = some (zone'.map Zone.exported) := by
      unfold exportedAt
      rw [hlookup']
      rfl
    obtain ⟨k, zone, hlookup, rfl, hzone⟩ := h.source k' _ hexported
    refine ⟨k, zone, hlookup, rfl, ?_⟩
    cases zone' with
    | none =>
      cases zone with
      | none => rfl
      | some z => exact absurd hzone (by simp)
    | some z' =>
      cases zone with
      | none => exact absurd hzone (by simp)
      | some z =>
        have heq : z'.exported = (g z).exported := Option.some.inj hzone
        show some (g' z').exported = some (g' (g z)).exported
        rw [← hg' z', heq, hg']

/-- A loop that renames the zones. -/
theorem zoneImage_renamed (f : String → String) (order : RangeOrder String (Option Zone))
    (p : Zones) : ZoneImage f (Zone.rename f) p (renamed f order p) := by
  refine ⟨fun key => mem_renamed, fun key saved hsaved => ?_⟩
  obtain ⟨zone', hzone', rfl⟩ := Option.map_eq_some_iff.mp hsaved
  obtain ⟨k, zone, hlookup, rfl, rfl⟩ := exists_of_lookup_rekey_empty hzone'
  refine ⟨k, zone, hlookup, rfl, ?_⟩
  cases zone <;> rfl

/-- The conversion of the literals. -/
theorem zoneImage_converted {parseDuration : String → Except String ℤ}
    {order : RangeOrder String (Option Zone)} {converted : Zones}
    (h : convertLiterals parseDuration order p = .ok converted) :
    ZoneImage id Zone.withDefaultTTL p converted := by
  constructor
  · intro key
    have hmem : key ∈ converted ↔ key ∈ p := by
      rw [mem_iff_exportedAt, mem_iff_exportedAt, exportedAt_converted h]
      cases exportedAt p key <;> simp
    simp [hmem]
  · intro key saved hsaved
    unfold exportedAt at hsaved
    rw [convertLiterals_export h key] at hsaved
    obtain ⟨zone, hzone, rfl⟩ := Option.map_eq_some_iff.mp hsaved
    exact ⟨key, zone, hzone, rfl, rfl⟩

theorem rename_exported_exported (f : String → String) (z : Zone) :
    (z.exported.rename f).exported = (z.rename f).exported := by
  rw [Zone.rename_exported, Zone.rename_exported, Zone.exported_exported]

theorem withDefaultTTL_exported_exported (z : Zone) :
    z.exported.withDefaultTTL.exported = z.withDefaultTTL.exported := by
  show z.withDefaultTTL.exported.exported = _
  rw [Zone.exported_exported]

/-- What a load makes of zones that agree with a map whose names have gone through `f`. -/
theorem ZoneImage.loaded {parseDuration : String → Except String ℤ}
    {order : RangeOrder String (Option Zone)} {converted : Zones}
    (h : ZoneImage f (Zone.rename f) p q)
    (hconv : convertLiterals parseDuration order q = .ok converted)
    (order' : RangeOrder String (Option Zone)) :
    ZoneImage (addDot ∘ f) (Zone.completed ∘ Zone.rename f) p (renamed addDot order' converted) :=
  (h.comp (zoneImage_converted hconv) withDefaultTTL_exported_exported).comp
    (zoneImage_renamed addDot order' converted) (rename_exported_exported addDot)

/-- A second trim. -/
theorem ZoneImage.trimmed (h : ZoneImage f (Zone.rename f) p q)
    (order : RangeOrder String (Option Zone)) :
    ZoneImage (trimDot ∘ f) (Zone.rename (trimDot ∘ f)) p (renamed trimDot order q) := by
  have hcomp := h.comp (zoneImage_renamed trimDot order q) (rename_exported_exported trimDot)
  have hrename : Zone.rename trimDot ∘ Zone.rename f = Zone.rename (trimDot ∘ f) :=
    funext fun z => Zone.rename_rename f trimDot z
  rw [hrename] at hcomp
  exact hcomp

end ZoneImage

/-- A name that is full after trimming was not longer before, unless it had an empty label. -/
theorem Trims.noEmptyLabel_of_keys {f : String → String} (hf : Trims f) {p q : Zones}
    (hmem : ∀ key, key ∈ q ↔ ∃ k ∈ p, addDot (f k) = key) (hall : ∀ key ∈ p, addDot key ∈ q)
    {key : String} (hkey : key ∈ p) : NoEmptyLabel key := by
  by_contra hlabel
  -- the longest key with an empty label cannot have come from anywhere
  have hfilter : key ∈ p.keys.filter fun k => ¬ NoEmptyLabel k :=
    Finset.mem_filter.mpr ⟨Finmap.mem_keys.mpr hkey, hlabel⟩
  obtain ⟨longest, hlongest, hmax⟩ := Finset.exists_max_image _ String.length ⟨key, hfilter⟩
  obtain ⟨hmem', hbad⟩ := Finset.mem_filter.mp hlongest
  obtain ⟨k, hk, heq⟩ := (hmem _).mp (hall longest (Finmap.mem_keys.mp hmem'))
  rw [addDot_of_hasDot (hasDot_of_emptyLabel hbad)] at heq
  by_cases hk' : NoEmptyLabel k
  · rw [hf.keep k hk'] at heq
    have hdotted := (noEmptyLabel_iff_dotted k).mp hk'
    rw [heq] at hdotted
    exact hbad hdotted.2
  · have hlt := hf.shrink k hk'
    have hle := hmax k (Finset.mem_filter.mpr ⟨Finmap.mem_keys.mpr hk, hk'⟩)
    rw [heq] at hlt
    omega

/-- Zones that were restored were unambiguous. -/
theorem Trims.unambiguous_of_restored {f : String → String} (hf : Trims f) {p q : Zones}
    (h : ZoneImage (addDot ∘ f) (Zone.completed ∘ Zone.rename f) p q)
    (hrestored : ZonesRestored p q) : Unambiguous p := by
  have hzones := hrestored.zones
  have hall : ∀ key ∈ p, addDot key ∈ q := by
    intro key hkey
    obtain ⟨zone, hzone⟩ := Finmap.mem_iff.mp hkey
    rw [mem_iff_exportedAt, hzones key zone hzone]
    simp
  have hkeys : ∀ key ∈ p, NoEmptyLabel key := fun key hkey =>
    hf.noEmptyLabel_of_keys h.mem_iff hall hkey
  refine ⟨fun key zone hzone => ⟨hkeys key (Finmap.mem_of_lookup_eq_some hzone), ?_⟩, ?_⟩
  · rintro z rfl name hname
    -- the zone that stands under the full name has come from a key with that full name
    obtain ⟨k, zone', hlookup', hkey', hsaved⟩ := h.source _ _ (hzones key _ hzone)
    have hk' := hkeys k (Finmap.mem_of_lookup_eq_some hlookup')
    have hfull : addDot k = addDot key := (hf.keep k hk').symm.trans hkey'
    have hown := hzones k zone' hlookup'
    rw [hfull, hzones key _ hzone, hsaved] at hown
    cases zone' with
    | none => exact absurd hsaved (by simp)
    | some z' =>
      have hz' : (z'.rename f).completed.exported = z'.completed.exported :=
        Option.some.inj (Option.some.inj hown)
      have hz : z.completed.exported = z'.completed.exported :=
        (Option.some.inj hsaved).trans hz'
      have hnames := congrArg Zone.names hz
      rw [Zone.names_exported, Zone.names_exported, Zone.names_completed,
        Zone.names_completed] at hnames
      have hmem : addDot name ∈ z'.names.map addDot := by
        rw [← hnames]
        exact List.mem_map.mpr ⟨name, hname, rfl⟩
      obtain ⟨name', hname', heq⟩ := List.mem_map.mp hmem
      rw [noEmptyLabel_iff_dotted, ← heq, ← noEmptyLabel_iff_dotted]
      exact (hf.completed_eq_iff z').mp hz' name' hname'
  · intro k l zone zone' hk hl heq
    have hzone := hzones k zone hk
    rw [heq, hzones l zone' hl] at hzone
    exact (Option.some.inj hzone).symm

/-- Zones that are unambiguous are restored. -/
theorem Trims.restored_of_unambiguous {f : String → String} (hf : Trims f) {p q : Zones}
    (h : ZoneImage (addDot ∘ f) (Zone.completed ∘ Zone.rename f) p q) (hp : Unambiguous p) :
    ZonesRestored p q := by
  have hkey : ∀ k ∈ p, addDot (f k) = addDot k := by
    intro k hk
    obtain ⟨zone, hzone⟩ := Finmap.mem_iff.mp hk
    exact hf.keep k (hp.names k zone hzone).1
  refine ⟨fun key zone hzone => ?_, fun key hmem => ?_⟩
  · have hmem := Finmap.mem_of_lookup_eq_some hzone
    have hq : addDot key ∈ q := (h.mem_iff _).mpr ⟨key, hmem, hkey key hmem⟩
    obtain ⟨saved, hsaved⟩ := Option.ne_none_iff_exists'.mp (mem_iff_exportedAt.mp hq)
    obtain ⟨k, zone', hlookup', hfull, rfl⟩ := h.source _ _ hsaved
    have hk := Finmap.mem_of_lookup_eq_some hlookup'
    rw [hsaved, ← hp.clash k key zone' zone hlookup' hzone ((hkey k hk).symm.trans hfull)]
    cases zone' with
    | none => rfl
    | some z' =>
      have hz' := (hf.completed_eq_iff z').mpr ((hp.names k _ hlookup').2 z' rfl)
      exact congrArg (fun saved => some (some saved)) hz'
  · obtain ⟨k, hk, rfl⟩ := (h.mem_iff key).mp hmem
    exact ⟨k, hk, (hkey k hk).symm⟩

/-- **Which zones are restored by a load after some trims.** -/
theorem Trims.restored_iff {f : String → String} (hf : Trims f) {p q : Zones}
    (h : ZoneImage (addDot ∘ f) (Zone.completed ∘ Zone.rename f) p q) :
    ZonesRestored p q ↔ Unambiguous p :=
  ⟨hf.unambiguous_of_restored h, hf.restored_of_unambiguous h⟩

/-! ## Which documents can be loaded -/

/-- A zone that is converted and decorated without an error. -/
def Admitted (parseDuration : String → Except String ℤ) (zone : Option Zone) : Prop :=
  zoneVerdict parseDuration zone = .accepted ∧ ∀ z, zone = some z → z.soa ≠ none

/-- A document that can be loaded. -/
structure Admissible (parseDuration : String → Except String ℤ) (d : ConfigData) : Prop where
  peers : d.peers.elems ≠ []
  zones : ∀ key zone, d.zones.lookup key = some zone → Admitted parseDuration zone

section Admissible

variable {parseDuration : String → Except String ℤ}

theorem recordVerdict_exported (soa : Option SOA) :
    recordVerdict parseDuration soa ∘ Option.map Record.exported
      = recordVerdict parseDuration soa := by
  funext r
  cases r <;> rfl

theorem recordVerdict_rename (f : String → String) (soa : Option SOA) :
    recordVerdict parseDuration (soa.map (SOA.rename f)) ∘ Option.map (Record.rename f)
      = recordVerdict parseDuration soa := by
  funext r
  cases r with
  | none => rfl
  | some r =>
    obtain ⟨type, name, literal, value⟩ := r
    cases type <;> cases soa <;> rfl

/-- Neither converted values nor names decide whether a zone is accepted. -/
theorem admitted_exported (zone : Option Zone) :
    Admitted parseDuration (zone.map Zone.exported) ↔ Admitted parseDuration zone := by
  cases zone with
  | none => exact Iff.rfl
  | some z =>
  have hverdict : zoneVerdict parseDuration (some z.exported)
      = zoneVerdict parseDuration (some z) := by
    obtain ⟨soa, ns, records⟩ := z
    cases records with
    | none => rfl
    | some rs =>
      cases ns with
      | none => rfl
      | some ns =>
        simp only [zoneVerdict, Zone.exported, Option.map_some, Slice.elems, Option.getD_some,
          List.map_map, recordVerdict_exported]
  unfold Admitted
  rw [Option.map_some, hverdict]
  simp [Zone.exported]

theorem admitted_rename (f : String → String) (zone : Option Zone) :
    Admitted parseDuration (zone.map (Zone.rename f)) ↔ Admitted parseDuration zone := by
  cases zone with
  | none => exact Iff.rfl
  | some z =>
  have hverdict : zoneVerdict parseDuration (some (z.rename f))
      = zoneVerdict parseDuration (some z) := by
    obtain ⟨soa, ns, records⟩ := z
    have hsoa : soa.map (SOA.rename f) = none ↔ soa = none := by cases soa <;> simp
    cases ns with
    | none => rfl
    | some ns =>
      cases records with
      | none =>
        simp only [zoneVerdict, Zone.rename, Option.map_some, NS.rename, hsoa, Option.map_none]
        rfl
      | some rs =>
        simp only [zoneVerdict, Zone.rename, Option.map_some, NS.rename, hsoa, Slice.elems,
          Option.getD_some, List.map_map, recordVerdict_rename]
  unfold Admitted
  rw [Option.map_some, hverdict]
  simp [Zone.rename]

/-- Zones that have only been renamed are accepted like those they come from. -/
theorem ZoneImage.admitted {f : String → String} {p q : Zones}
    (h : ZoneImage f (Zone.rename f) p q)
    (hp : ∀ key zone, p.lookup key = some zone → Admitted parseDuration zone) {key : String}
    {zone : Option Zone} (hzone : q.lookup key = some zone) : Admitted parseDuration zone := by
  have hexported : exportedAt q key = some (zone.map Zone.exported) := by
    unfold exportedAt
    rw [hzone]
    rfl
  obtain ⟨k, zone', hlookup, -, heq⟩ := h.source key _ hexported
  have hrenamed : zone.map Zone.exported = (zone'.map (Zone.rename f)).map Zone.exported := by
    rw [heq, Option.map_map]
    rfl
  rw [← admitted_exported, hrenamed, admitted_exported, admitted_rename]
  exact hp k zone' hlookup

/-- Zones that agree are accepted alike. -/
theorem ZonesAgree.admitted {p q : Zones} (h : ZonesAgree q p)
    (hp : ∀ key zone, p.lookup key = some zone → Admitted parseDuration zone) {key : String}
    {zone : Option Zone} (hzone : q.lookup key = some zone) : Admitted parseDuration zone := by
  have hkey := h key
  unfold exportedAt at hkey
  rw [hzone] at hkey
  obtain ⟨zone', hlookup, heq⟩ := Option.map_eq_some_iff.mp hkey.symm
  rw [← admitted_exported, ← heq, admitted_exported]
  exact hp key zone' hlookup

/-- **What `postLoad` accepts** does not depend on the orders of its loops. -/
theorem postLoad_ok_iff {lib : Libraries β} {env : Env} {c : Config} {filename : String}
    {chain : List String} {signal : Bool} :
    (∃ loaded, postLoad lib env c filename chain signal = .ok loaded) ↔
      Admissible lib.parseDuration c.toConfigData := by
  constructor
  · rintro ⟨loaded, hload⟩
    obtain ⟨converted, hconv, hdecor, -⟩ := postLoad_ok hload
    have hpeers : c.peers.elems ≠ [] := by
      intro hnil
      unfold postLoad at hload
      rw [if_pos hnil] at hload
      exact absurd hload (by simp)
    have haccepted := convertLiterals_ok_iff.mp ⟨converted, hconv⟩
    have hsoa := (complete_iff_soa hconv).mp (decorateZones_ok_iff.mp hdecor)
    refine ⟨hpeers, fun key zone hzone => ⟨haccepted key zone hzone, ?_⟩⟩
    rintro z rfl
    exact hsoa key z hzone
  · rintro ⟨hpeers, hzones⟩
    have haccepted : ∃ converted,
        convertLiterals lib.parseDuration (env.order .convert) c.zones = .ok converted :=
      convertLiterals_ok_iff.mpr fun key zone hzone => (hzones key zone hzone).1
    obtain ⟨converted, hconv⟩ := haccepted
    have hcomplete := (complete_iff_soa hconv).mpr fun key z hz => (hzones key _ hz).2 z rfl
    have hdecor : (decorateZones (env.order .decorate) converted).2 = none :=
      decorateZones_ok_iff.mpr hcomplete
    refine ⟨{ c with
      filenamePrefix := trimExt filename, chain := chain, reload := signal
      zones := (decorateZones (env.order .decorate) converted).1 }, ?_⟩
    unfold postLoad
    rw [if_neg hpeers]
    simp only [hconv]
    rw [show decorateZones (env.order .decorate) converted
      = ((decorateZones (env.order .decorate) converted).1, none) from Prod.ext rfl hdecor]

end Admissible

/-! ## The files a save writes -/

/-- The path is one that a save writes: it ends in `.json` or `.yaml`. -/
def Rewritten (path : String) : Prop :=
  ".json".toList <:+ path.toList ∨ ".yaml".toList <:+ path.toList

instance (path : String) : Decidable (Rewritten path) :=
  inferInstanceAs (Decidable (_ ∨ _))

/-- An extension is cut off. -/
theorem trimExt_append (base : String) {ext : String} {rest : List Char}
    (hext : ext.toList = '.' :: rest) (hrest : ∀ c ∈ rest, c ≠ '.' ∧ c ≠ '/') :
    trimExt (base ++ ext) = base := by
  have hdrop : (base ++ ext).toList.reverse.dropWhile (fun c => c ≠ '.' ∧ c ≠ '/')
      = '.' :: base.toList.reverse := by
    rw [String.toList_append, hext, List.reverse_append, List.reverse_cons, List.append_assoc,
      List.dropWhile_append_of_pos]
    · rfl
    · intro c hc
      exact decide_eq_true (hrest c (List.mem_reverse.mp hc))
  unfold trimExt
  simp only [hdrop]
  rw [List.reverse_reverse, String.ofList_toList]

theorem trimExt_json (base : String) : trimExt (base ++ ".json") = base :=
  trimExt_append base (by decide : ".json".toList = '.' :: ['j', 's', 'o', 'n']) (by simp)

theorem trimExt_yaml (base : String) : trimExt (base ++ ".yaml") = base :=
  trimExt_append base (by decide : ".yaml".toList = '.' :: ['y', 'a', 'm', 'l']) (by simp)

theorem trimExt_tmp (base : String) : trimExt (base ++ ".tmp") = base :=
  trimExt_append base (by decide : ".tmp".toList = '.' :: ['t', 'm', 'p']) (by simp)

theorem eq_append_of_suffix {ext path : String} (h : ext.toList <:+ path.toList) :
    ∃ base, path = base ++ ext := by
  obtain ⟨start, hstart⟩ := h
  refine ⟨String.ofList start, String.toList_inj.mp ?_⟩
  rw [String.toList_append, String.toList_ofList, hstart]

/-- Such a path is the name of one of the two files made from it. -/
theorem rewritten_iff (path : String) :
    Rewritten path ↔ path = trimExt path ++ ".json" ∨ path = trimExt path ++ ".yaml" := by
  constructor
  · rintro (h | h)
    · obtain ⟨base, rfl⟩ := eq_append_of_suffix h
      rw [trimExt_json]
      exact Or.inl rfl
    · obtain ⟨base, rfl⟩ := eq_append_of_suffix h
      rw [trimExt_yaml]
      exact Or.inr rfl
  · rintro (h | h)
    · left
      rw [h, String.toList_append]
      exact List.suffix_append _ _
    · right
      rw [h, String.toList_append]
      exact List.suffix_append _ _

/-- The path is none of the four that a save with this prefix writes. -/
structure OtherPath (base p : String) : Prop where
  json : p ≠ base ++ ".json"
  jsonTmp : p ≠ base ++ ".json" ++ ".tmp"
  yaml : p ≠ base ++ ".yaml"
  yamlTmp : p ≠ base ++ ".yaml" ++ ".tmp"

/-- The temporary files have two extensions more than the prefix, and the path has one. -/
theorem otherPath_of_not_rewritten {path : String} (h : ¬ Rewritten path) :
    OtherPath (trimExt path) path := by
  rw [rewritten_iff, not_or] at h
  have htmp : ∀ ext : String, ext ≠ "" → path ≠ trimExt path ++ ext ++ ".tmp" := by
    intro ext hne heq
    have hbase := congrArg trimExt heq
    rw [trimExt_tmp] at hbase
    have hlen := congrArg String.length hbase
    rw [String.length_append] at hlen
    apply hne
    have hnil : ext.toList = [] := List.length_eq_zero_iff.mp (by rw [String.length_toList]; omega)
    exact String.toList_inj.mp hnil
  exact ⟨h.1, htmp _ (by decide), h.2, htmp _ (by decide)⟩

/-- A call that keeps the prefix and does not touch a path. -/
def Untouched {α : Type} (base p : String) (x : Prog β α) : Prop :=
  ∀ node : Node β, node.config.filenamePrefix = base →
    (finalNode (x.run node)).config.filenamePrefix = base ∧
      (finalNode (x.run node)).disk p = node.disk p

section Untouched

variable {α γ : Type} {base p : String}

theorem Untouched.bind {x : Prog β α} {f : α → Prog β γ} (hx : Untouched base p x)
    (hf : ∀ a, Untouched base p (f a)) : Untouched base p (x >>= f) := by
  intro node hbase
  have hfirst := hx node hbase
  cases hrun : x.run node with
  | error e node' =>
    rw [hrun] at hfirst
    rw [bind_eq_of_error hrun]
    exact hfirst
  | ok a node' =>
    rw [hrun] at hfirst
    rw [bind_eq_of_ok hrun]
    obtain ⟨hbase', hdisk⟩ := hfirst
    obtain ⟨hbase'', hdisk'⟩ := hf a node' hbase'
    exact ⟨hbase'', hdisk'.trans hdisk⟩

theorem Untouched.wrapError {x : Prog β α} (hx : Untouched base p x) (label : String) :
    Untouched base p (wrapError label x) := by
  intro node hbase
  have hfirst := hx node hbase
  cases hrun : x.run node with
  | error e node' =>
    rw [hrun] at hfirst
    rw [wrapError_of_error hrun]
    exact hfirst
  | ok a node' =>
    rw [hrun] at hfirst
    rw [wrapError_of_ok hrun]
    exact hfirst

theorem untouched_require (cond : Prop) [Decidable cond] (msg : String) :
    Untouched base p (require (β := β) cond msg) := by
  intro node hbase
  by_cases hcond : cond
  · rw [require_of_pos hcond]
    exact ⟨hbase, rfl⟩
  · rw [require_of_neg hcond]
    exact ⟨hbase, rfl⟩

theorem untouched_createFile {path : String} (hne : p ≠ path) (fault : Option String) :
    Untouched base p (createFile (β := β) path fault) := by
  intro node hbase
  cases hcreate : createError node.disk path fault with
  | some e =>
    rw [createFile_error hcreate]
    exact ⟨hbase, rfl⟩
  | none =>
    rw [createFile_ok hcreate]
    exact ⟨hbase, Function.update_of_ne hne _ _⟩

theorem untouched_trimConfig (order : RangeOrder String (Option Zone)) :
    Untouched base p (trimConfig (β := β) order) := by
  intro node hbase
  cases htrim : (trimZones order node.config.zones).2 with
  | some e =>
    rw [trimConfig_error htrim]
    exact ⟨hbase, rfl⟩
  | none =>
    rw [trimConfig_ok htrim]
    exact ⟨hbase, rfl⟩

theorem untouched_encodeConfig (encoder : ConfigData → Except String β) :
    Untouched base p (encodeConfig encoder) := by
  intro node hbase
  cases hencode : encoder node.config.toConfigData with
  | error e =>
    rw [encodeConfig_error hencode]
    exact ⟨hbase, rfl⟩
  | ok document =>
    rw [encodeConfig_ok hencode]
    exact ⟨hbase, rfl⟩

theorem untouched_writeFile {path : String} (hne : p ≠ path) (document : β)
    (fault : Option String) :
    Untouched base p (writeFile path document fault) := by
  intro node hbase
  cases fault with
  | some e => exact ⟨hbase, rfl⟩
  | none => exact ⟨hbase, Function.update_of_ne hne _ _⟩

theorem untouched_renameFile {old new : String} (hold : p ≠ old) (hnew : p ≠ new)
    (fault : Option String) : Untouched base p (renameFile (β := β) old new fault) := by
  intro node hbase
  cases hrename : renameError node.disk new fault with
  | some e =>
    have hsome : (renameError node.disk new fault).isSome :=
      Option.isSome_iff_exists.mpr ⟨e, hrename⟩
    obtain ⟨e', he'⟩ := renameFile_error old hsome
    rw [he']
    exact ⟨hbase, rfl⟩
  | none =>
    rw [renameFile_ok old hrename]
    refine ⟨hbase, ?_⟩
    show Function.update (Function.update node.disk new (node.disk old)) old none p = node.disk p
    rw [Function.update_of_ne hold, Function.update_of_ne hnew]

theorem untouched_saveFile {path : String} (htmp : p ≠ path ++ ".tmp") (hpath : p ≠ path)
    (createFault writeFault renameFault : Option String)
    (order : RangeOrder String (Option Zone)) (encoder : ConfigData → Except String β) :
    Untouched base p (saveFile path createFault writeFault renameFault order encoder) := by
  refine Untouched.bind (Untouched.wrapError ?_ _) fun _ =>
    Untouched.wrapError (untouched_renameFile htmp hpath _) _
  refine (untouched_createFile htmp _).bind fun _ => (untouched_trimConfig order).bind fun _ => ?_
  exact (untouched_encodeConfig encoder).bind fun document => untouched_writeFile htmp document _

/-- A save touches the two files of its prefix and their temporary ones only. -/
theorem untouched_save (h : OtherPath base p) (lib : Libraries β) (env : Env) :
    Untouched base p (save lib env) := by
  intro node hbase
  rw [save_run]
  have hjson : node.jsonPath = base ++ ".json" := by rw [Node.jsonPath, hbase]
  have hyaml : node.yamlPath = base ++ ".yaml" := by rw [Node.yamlPath, hbase]
  rw [hjson, hyaml]
  refine Untouched.bind (untouched_require _ _) (fun _ => ?_) node hbase
  refine (untouched_require _ _).bind fun _ => ?_
  exact (untouched_saveFile h.jsonTmp h.json _ _ _ _ _).bind fun _ =>
    untouched_saveFile h.yamlTmp h.yaml _ _ _ _ _

theorem untouched_reload (lib : Libraries β) (env : Env) : Untouched base p (reload lib env) := by
  intro node hbase
  cases hload : fromDisk lib env node.config node.jsonPath (loadJSON lib)
      (node.disk node.jsonPath) with
  | error e =>
    rw [reload_error hload]
    exact ⟨hbase, rfl⟩
  | ok newConfig =>
    rw [reload_ok hload]
    exact ⟨hbase, rfl⟩

theorem untouched_saveConfig (h : OtherPath base p) (lib : Libraries β) (env : Env) :
    Untouched base p (saveConfig lib env) :=
  ((untouched_save h lib env).wrapError _).bind fun _ => (untouched_reload lib env).wrapError _

/-- No request touches any other path. -/
theorem untouched_operate (h : OtherPath base p) (lib : Libraries β) (env : Env) (op : Operation) :
    Untouched base p (operate lib env op) := by
  cases op with
  | configUpdate newConfig =>
    intro node hbase
    refine Untouched.bind (x := copyConfig newConfig node.config.chain) ?_
      (fun _ => untouched_saveConfig h lib env) node hbase
    intro node' hbase'
    cases newConfig with
    | none => exact ⟨hbase', rfl⟩
    | some newConfig => exact ⟨hbase', rfl⟩
  | peerRegister peer =>
    refine Untouched.bind ?_ fun _ => untouched_saveConfig h lib env
    intro node hbase
    cases hpeers : registerPeer peer node.config.peers.elems with
    | error e =>
      simp only [EStateM.run, editPeers, hpeers, finalNode]
      exact ⟨hbase, trivial⟩
    | ok peers =>
      simp only [EStateM.run, editPeers, hpeers, finalNode]
      exact ⟨hbase, trivial⟩
  | configReload => exact (untouched_reload lib env).wrapError _

end Untouched

/-! ## A node between two starts -/

/-- What happens on a node that has started: a request is handled, or the health checks and the
elections change the configuration in memory. -/
inductive Activity
  | request (env : Env) (op : Operation)
  | inMemory (d : ConfigData) (publisher : Option Peer)

/-- The node after it, whatever comes of a request. -/
def carryOut (lib : Libraries β) (node : Node β) : Activity → Node β
  | .request env op => finalNode ((operate lib env op).run node)
  | .inMemory d publisher =>
    { node with config := { node.config with toConfigData := d, publisher := publisher } }

section Activities

variable {lib : Libraries β} {path : String}

theorem base_carryOut (lib : Libraries β) (node : Node β) (a : Activity) :
    (carryOut lib node a).config.filenamePrefix = node.config.filenamePrefix := by
  cases a with
  | inMemory d publisher => rfl
  | request env op =>
    -- any path that is none of the four will do
    have hother : OtherPath node.config.filenamePrefix "" := by
      have hne : ∀ ext : String, ext ≠ "" → "" ≠ node.config.filenamePrefix ++ ext := by
        intro ext hext heq
        have hlen := congrArg String.length heq
        rw [String.length_append] at hlen
        have hzero : ext.length = 0 := by
          have hempty : ("" : String).length = 0 := rfl
          omega
        apply hext
        have hnil : ext.toList = [] :=
          List.length_eq_zero_iff.mp (by rw [String.length_toList]; exact hzero)
        exact String.toList_inj.mp hnil
      refine ⟨hne _ (by decide), ?_, hne _ (by decide), ?_⟩
      · rw [String.append_assoc]
        exact hne _ (by decide)
      · rw [String.append_assoc]
        exact hne _ (by decide)
    exact (untouched_operate hother lib env op node rfl).1

/-- **The prefix stays**, in every run. -/
theorem base_activities (lib : Libraries β) (activities : List Activity) (node : Node β) :
    (activities.foldl (carryOut lib) node).config.filenamePrefix = node.config.filenamePrefix := by
  induction activities generalizing node with
  | nil => rfl
  | cons a activities ih =>
    rw [List.foldl_cons, ih, base_carryOut]

theorem disk_carryOut {node : Node β} (h : OtherPath node.config.filenamePrefix path)
    (a : Activity) : (carryOut lib node a).disk path = node.disk path := by
  cases a with
  | inMemory d publisher => rfl
  | request env op => exact (untouched_operate h lib env op node rfl).2

/-- **So does every file but the two that are saved**, in every run. -/
theorem disk_activities {node : Node β} (h : OtherPath node.config.filenamePrefix path)
    (activities : List Activity) :
    (activities.foldl (carryOut lib) node).disk path = node.disk path := by
  induction activities generalizing node with
  | nil => rfl
  | cons a activities ih =>
    rw [List.foldl_cons, ih, disk_carryOut h]
    rw [base_carryOut]
    exact h

/-- The inversion of the first load. -/
theorem loadConfig_ok {env : Env} {node node' : Node β}
    (h : (loadConfig lib env path).run node = .ok () node') :
    ∃ loaded, fromDisk lib env node.config path (loadYAML lib) (node.disk path) = .ok loaded ∧
      node' = { node with config := loaded } := by
  unfold loadConfig at h
  cases hfile : fromDisk lib env node.config path (loadYAML lib) (node.disk path) with
  | error e =>
    simp only [EStateM.run, hfile] at h
    exact absurd h (by simp)
  | ok loaded =>
    simp only [EStateM.run, hfile] at h
    exact ⟨loaded, rfl, (EStateM.Result.ok.inj h).2.symm⟩

theorem fromDisk_base {env : Env} {c loaded : Config} {loader : β → Except String Config}
    {file : Option (File β)} (h : fromDisk lib env c path loader file = .ok loaded) :
    loaded.filenamePrefix = trimExt path := by
  obtain ⟨document, newConfig, -, -, hpost⟩ := fromDisk_ok h
  obtain ⟨converted, -, -, rfl⟩ := postLoad_ok hpost
  rfl

/-- The inversion of a start: a load, and a save and a reload of what was loaded. -/
theorem serve_ok {loadEnv env : Env} {disk : String → Option (File β)} {started : Node β}
    (h : (serve lib loadEnv env path).run (.initial disk) = .ok () started) :
    ∃ loaded node, fromDisk lib loadEnv (Config.new []) path (loadYAML lib) (disk path)
        = .ok loaded ∧
      roundStep lib ⟨loaded, disk⟩ env = some node ∧
      started = { node with config := { node.config with reload := false } } := by
  obtain ⟨_, node₁, hload, hrest⟩ := run_bind_ok h
  obtain ⟨_, node₂, hsave, hrest'⟩ := run_bind_ok hrest
  obtain ⟨_, node₃, hreload, hdrain⟩ := run_bind_ok hrest'
  obtain ⟨loaded, hfile, rfl⟩ := loadConfig_ok hload
  refine ⟨loaded, node₃, hfile, ?_, (EStateM.Result.ok.inj hdrain).2.symm⟩
  have hround : (saveAndReload lib env).run ⟨loaded, disk⟩ = .ok () node₃ :=
    (bind_eq_of_ok hsave).trans hreload
  unfold roundStep
  rw [hround]

/-- What a start leaves of the paths. -/
theorem serve_frame {loadEnv env : Env} {disk : String → Option (File β)} {started : Node β}
    (h : (serve lib loadEnv env path).run (.initial disk) = .ok () started) :
    started.config.filenamePrefix = trimExt path ∧
      (¬ Rewritten path → started.disk path = disk path) := by
  obtain ⟨loaded, node, hload, hround, rfl⟩ := serve_ok h
  have hsave := roundStep_ok hround
  have hbase := fromDisk_base hload
  obtain ⟨json, yaml, reloaded, hsaved⟩ := saveConfig_ok hsave
  constructor
  · show node.config.filenamePrefix = trimExt path
    rw [hsaved.config]
    exact hbase
  · intro hnot
    have hframe := untouched_saveConfig (otherPath_of_not_rewritten hnot) lib env ⟨loaded, disk⟩
      hbase
    rw [hsave] at hframe
    exact hframe.2

end Activities

/-! ## What an update writes -/

/-- On the class, the YAML reader reads the JSON files. -/
def ReadsJSON (lib : Libraries β) (D : Domain) : Prop :=
  ∀ d document, d.In D → lib.encodeJSON d = .ok document →
    ∃ d', lib.decodeYAML document = .ok d' ∧ d'.Agrees d

/-- A document holds the fields of a configuration, with dots taken off its names. -/
structure Holding (N : ConfigData) (d : ConfigData) : Prop where
  shutdownWait : d.shutdownWait = N.shutdownWait
  authKey : d.authKey = N.authKey
  listen : d.listen = N.listen
  peers : d.peers = N.peers
  zones : ∃ f, Trims f ∧ ZoneImage f (Zone.rename f) N.zones d.zones

section Written

variable {lib : Libraries β} {D : Domain} {env : Env}

theorem Holding.of_agrees {N d d' : ConfigData} (h : Holding N d) (hagrees : d'.Agrees d) :
    Holding N d' := by
  obtain ⟨f, hf, himage⟩ := h.zones
  exact ⟨hagrees.shutdownWait.trans h.shutdownWait, hagrees.authKey.trans h.authKey,
    hagrees.listen.trans h.listen, hagrees.peers.trans h.peers, f, hf,
    himage.of_agree hagrees.zones⟩

/-- The configuration that goes into the JSON file. -/
theorem holding_trim {N : ConfigData} {order : RangeOrder String (Option Zone)}
    (h : (trimZones order N.zones).2 = none) : Holding N (N.trim order) := by
  have hzones : (trimZones order N.zones).1 = renamed trimDot order N.zones :=
    renameZones_eq_renamed h
  refine ⟨rfl, rfl, rfl, rfl, trimDot, trims_trimDot, ?_⟩
  show ZoneImage trimDot (Zone.rename trimDot) N.zones (trimZones order N.zones).1
  rw [hzones]
  exact zoneImage_renamed trimDot order N.zones

/-- The configuration that goes into the YAML file. -/
theorem Holding.trim {N d : ConfigData} (hd : Holding N d)
    {order : RangeOrder String (Option Zone)} (h : (trimZones order d.zones).2 = none) :
    Holding N (d.trim order) := by
  obtain ⟨f, hf, himage⟩ := hd.zones
  have hzones : (trimZones order d.zones).1 = renamed trimDot order d.zones :=
    renameZones_eq_renamed h
  refine ⟨hd.shutdownWait, hd.authKey, hd.listen, hd.peers, trimDot ∘ f, hf.trimDot_comp, ?_⟩
  show ZoneImage (trimDot ∘ f) (Zone.rename (trimDot ∘ f)) N.zones (trimZones order d.zones).1
  rw [hzones]
  exact himage.trimmed order

/-- A document that agrees with one that can be loaded can be loaded. -/
theorem Admissible.of_agrees {parseDuration : String → Except String ℤ} {d d' : ConfigData}
    (h : Admissible parseDuration d) (hagrees : d'.Agrees d) : Admissible parseDuration d' := by
  refine ⟨?_, fun key zone hzone => hagrees.zones.admitted h.zones hzone⟩
  rw [hagrees.peers]
  exact h.peers

theorem Admissible.trim {parseDuration : String → Except String ℤ} {d : ConfigData}
    (hd : Admissible parseDuration d) {order : RangeOrder String (Option Zone)}
    (h : (trimZones order d.zones).2 = none) : Admissible parseDuration (d.trim order) := by
  have hzones : (trimZones order d.zones).1 = renamed trimDot order d.zones :=
    renameZones_eq_renamed h
  refine ⟨hd.peers, fun key zone hzone => ?_⟩
  have hlookup : (trimZones order d.zones).1.lookup key = some zone := hzone
  rw [hzones] at hlookup
  exact (zoneImage_renamed trimDot order d.zones).admitted hd.zones hlookup

theorem ConfigData.Agrees.symm {d d' : ConfigData} (h : d.Agrees d') : d'.Agrees d :=
  ⟨h.shutdownWait.symm, h.authKey.symm, h.listen.symm, h.peers.symm, fun key => (h.zones key).symm⟩

/-- **An update that succeeds** leaves in either file a document of the class that the YAML reader
can load, with the fields of the update in it. -/
theorem handleConfigUpdate_files (hjson : RoundTrips lib D) (hyaml : RoundTripsYAML lib D)
    (hreads : ReadsJSON lib D) {node node' : Node β} {newConfig : Config}
    (hin : newConfig.toConfigData.In D)
    (h : (handleConfigUpdate lib env (some newConfig)).run node = .ok () node') {path : String}
    (hpath : path = node.config.filenamePrefix ++ ".json" ∨
      path = node.config.filenamePrefix ++ ".yaml") :
    ∃ document d, node'.disk path = some (.doc document) ∧ lib.decodeYAML document = .ok d ∧
      d.In D ∧ Holding newConfig.toConfigData d ∧ Admissible lib.parseDuration d := by
  have hreplace : (update lib env (.replace (some newConfig) node.config.chain)).run node
      = .ok () node' := h
  obtain ⟨d, hd, hsaveConfig⟩ := update_ok hreplace
  obtain rfl := Except.ok.inj hd
  obtain ⟨_, node₁, hsave, hreload⟩ := run_bind_ok hsaveConfig
  obtain ⟨json, yaml, hstage, hreached⟩ := save_ok (run_wrapError_ok hsave)
  obtain ⟨loaded, hload, rfl⟩ := reload_install (run_wrapError_ok hreload)
  obtain ⟨htrim, hencode⟩ := saveStage_ok hstage
  obtain ⟨htrim', hencode'⟩ := saveStage_yaml_ok hstage
  have hholds := holding_trim htrim
  have hsaved := hin.trim htrim
  -- the reload has shown that what was written as JSON can be loaded
  have hadmissible : Admissible lib.parseDuration
      (newConfig.toConfigData.trim (env.order .trimJSON)) := by
    have hfile : node₁.disk node₁.jsonPath = some (.doc json) := by
      rw [Node.jsonPath, hreached.config]
      exact hreached.json
    rw [hfile] at hload
    obtain ⟨document, decoded, hdoc, hdecoded, hpost⟩ := fromDisk_ok hload
    obtain rfl := File.doc.inj (Option.some.inj hdoc)
    obtain ⟨data, hdata, hagrees⟩ := hjson _ _ hsaved hencode
    unfold loadJSON at hdecoded
    rw [hdata] at hdecoded
    obtain rfl := Except.ok.inj hdecoded
    exact Admissible.of_agrees (postLoad_ok_iff.mp ⟨_, hpost⟩) hagrees.symm
  rcases hpath with rfl | rfl
  · obtain ⟨d, hdecode, hagrees⟩ := hreads _ _ hsaved hencode
    exact ⟨json, d, hreached.json, hdecode, hsaved.of_agrees hagrees, hholds.of_agrees hagrees,
      hadmissible.of_agrees hagrees⟩
  · obtain ⟨d, hdecode, hagrees⟩ := hyaml _ _ (hsaved.trim htrim') hencode'
    exact ⟨yaml, d, hreached.yaml, hdecode, (hsaved.trim htrim').of_agrees hagrees,
      (hholds.trim htrim').of_agrees hagrees, (hadmissible.trim htrim').of_agrees hagrees⟩

/-- A document that can be loaded is loaded when it can be read. -/
theorem exists_fromDisk (c : Config) (filename : String) {document : β} {d : ConfigData}
    (hopen : env.fault .openFile = none) (hread : env.fault .readFile = none)
    (hdecode : lib.decodeYAML document = .ok d) (hd : Admissible lib.parseDuration d) :
    ∃ loaded, fromDisk lib env c filename (loadYAML lib) (some (.doc document)) = .ok loaded := by
  have hloader : loadYAML lib document = .ok { Config.new [] with toConfigData := d } := by
    unfold loadYAML
    rw [hdecode]
    rfl
  unfold fromDisk
  simp only [hopen, hread, hloader]
  exact postLoad_ok_iff.mpr hd

/-- What is loaded from a YAML document. -/
theorem fromDisk_yaml_ok {c loaded : Config} {filename : String} {document : β}
    (h : fromDisk lib env c filename (loadYAML lib) (some (.doc document)) = .ok loaded) :
    ∃ data converted, lib.decodeYAML document = .ok data ∧
      convertLiterals lib.parseDuration (env.order .convert) data.zones = .ok converted ∧
      loaded.toConfigData
        = { data with zones := renamed addDot (env.order .decorate) converted } := by
  obtain ⟨newConfig, converted, hloader, hconv, hdecor, hloaded⟩ := fromDisk_document_ok h
  have hzones : (decorateZones (env.order .decorate) converted).1
      = renamed addDot (env.order .decorate) converted := renameZones_eq_renamed hdecor
  rw [hzones] at hloaded
  unfold loadYAML at hloader
  cases hdec : lib.decodeYAML document with
  | error e =>
    rw [hdec] at hloader
    exact absurd hloader (by simp [Except.map])
  | ok data =>
    rw [hdec] at hloader
    obtain rfl := Except.ok.inj hloader
    exact ⟨data, converted, rfl, hconv, hloaded⟩

/-- What is loaded from a YAML document of the class is in it. -/
theorem in_fromDisk_yaml {c loaded : Config} {filename : String} {document : β} {d : ConfigData}
    (hdecode : lib.decodeYAML document = .ok d) (hd : d.In D)
    (h : fromDisk lib env c filename (loadYAML lib) (some (.doc document)) = .ok loaded) :
    loaded.toConfigData.In D := by
  obtain ⟨data, converted, hdata, hconv, hloaded⟩ := fromDisk_yaml_ok h
  obtain rfl := Except.ok.inj (hdecode.symm.trans hdata)
  rw [hloaded]
  exact hd.withZones ((hd.zones.converted hconv).renamed D.decorate _)

/-- **What a load restores.** -/
theorem Holding.restored_iff {N d : ConfigData} (h : Holding N d) {c loaded : Config}
    {filename : String} {document : β} (hdecode : lib.decodeYAML document = .ok d)
    (hload : fromDisk lib env c filename (loadYAML lib) (some (.doc document)) = .ok loaded) :
    Restored N loaded.toConfigData ↔ Unambiguous N.zones := by
  obtain ⟨data, converted, hdata, hconv, hloaded⟩ := fromDisk_yaml_ok hload
  obtain rfl := Except.ok.inj (hdecode.symm.trans hdata)
  obtain ⟨f, hf, himage⟩ := h.zones
  rw [hloaded, ← hf.restored_iff (himage.loaded hconv (env.order .decorate))]
  constructor
  · exact fun hrestored => hrestored.zones
  · exact fun hzones => ⟨h.shutdownWait, h.authKey, h.listen, h.peers, hzones⟩

end Written

/-- Names that were restored have one dot. -/
theorem ZonesRestored.names {p q : Zones} (h : ZonesRestored p q) (hp : Unambiguous p) :
    ZonesNames NoEmptyLabel q := by
  have hfull : ∀ name, NoEmptyLabel name → NoEmptyLabel (addDot name) := fun name hname =>
    ((noEmptyLabel_iff_dotted name).mp hname).2
  intro key zone hzone
  obtain ⟨k, hk, rfl⟩ := h.keys key (Finmap.mem_of_lookup_eq_some hzone)
  obtain ⟨zone', hzone'⟩ := Finmap.mem_iff.mp hk
  obtain ⟨hkey, hnames⟩ := hp.names k zone' hzone'
  refine ⟨hfull k hkey, ?_⟩
  rintro z rfl name hname
  have hexported := h.zones k zone' hzone'
  unfold exportedAt at hexported
  rw [hzone] at hexported
  cases zone' with
  | none => exact absurd hexported (by simp)
  | some z' =>
    have hz : z.exported = z'.completed.exported := Option.some.inj (Option.some.inj hexported)
    have hsame := congrArg Zone.names hz
    rw [Zone.names_exported, Zone.names_exported, Zone.names_completed] at hsame
    rw [hsame] at hname
    obtain ⟨name', hname', rfl⟩ := List.mem_map.mp hname
    exact hfull name' (hnames z' rfl name' hname')

/-! ## The main result -/

section Main

variable {lib : Libraries β} {D : Domain} {path : String} {disk : String → Option (File β)}
  {loadEnv env updateEnv restartEnv : Env} {newConfig : Config} {started node : Node β}

/-- **A file that the update has written** is loaded, and has what the update means when that is
unambiguous. -/
theorem restart_of_rewritten (hjson : RoundTrips lib D) (hyaml : RoundTripsYAML lib D)
    (hreads : ReadsJSON lib D) (hin : newConfig.toConfigData.In D) (hpath : Rewritten path)
    (hnode : started.config.filenamePrefix = trimExt path)
    (hupdate : (handleConfigUpdate lib updateEnv (some newConfig)).run started = .ok () node)
    (hopen : restartEnv.fault .openFile = none) (hread : restartEnv.fault .readFile = none) :
    ∃ loaded, fromDisk lib restartEnv (Config.new []) path (loadYAML lib) (node.disk path)
        = .ok loaded ∧
      (Restored newConfig.toConfigData loaded.toConfigData ↔ Unambiguous newConfig.zones) ∧
      (Unambiguous newConfig.zones → ∀ saveEnv restarted,
        (serve lib restartEnv saveEnv path).run (.initial node.disk) = .ok () restarted →
          restarted.config.toConfigData = loaded.toConfigData) := by
  have hfile := (rewritten_iff path).mp hpath
  rw [← hnode] at hfile
  obtain ⟨document, d, hdisk, hdecode, hd, hholds, hadmissible⟩ :=
    handleConfigUpdate_files hjson hyaml hreads hin hupdate hfile
  obtain ⟨loaded, hload⟩ := exists_fromDisk (Config.new []) path hopen hread hdecode hadmissible
  have hiff := hholds.restored_iff hdecode hload
  rw [hdisk]
  refine ⟨loaded, hload, hiff, fun hnames saveEnv restarted hrestart => ?_⟩
  obtain ⟨loaded', node', hload', hround, rfl⟩ := serve_ok hrestart
  rw [hdisk, hload] at hload'
  obtain rfl := Except.ok.inj hload'
  have hlabels := ((hiff.mpr hnames).zones).names hnames
  rw [roundStep_config hjson (in_fromDisk_yaml hdecode hd hload) hround
    (zonesLoaded_of_fromDisk hload) hlabels]

/-- **Another file** is what it was at the first start. -/
theorem disk_of_not_rewritten (hpath : ¬ Rewritten path)
    (hserve : (serve lib loadEnv env path).run (.initial disk) = .ok () started)
    (activities : List Activity)
    (hupdate : (handleConfigUpdate lib updateEnv (some newConfig)).run
      (activities.foldl (carryOut lib) started) = .ok () node) :
    node.disk path = disk path := by
  obtain ⟨hbase, hkept⟩ := serve_frame hserve
  have hother := otherPath_of_not_rewritten hpath
  have hnode : (activities.foldl (carryOut lib) started).config.filenamePrefix = trimExt path := by
    rw [base_activities, hbase]
  have hframe := untouched_operate hother lib updateEnv (.configUpdate (some newConfig)) _ hnode
  have hrun : (operate lib updateEnv (.configUpdate (some newConfig))).run
      (activities.foldl (carryOut lib) started) = .ok () node := hupdate
  rw [hrun] at hframe
  exact hframe.2.trans ((disk_activities (hbase ▸ hother) activities).trans (hkept hpath))

/-- The file of a start is loaded again: the orders of the loops do not decide whether it is. -/
theorem exists_fromDisk_again
    (hserve : (serve lib loadEnv env path).run (.initial disk) = .ok () started)
    (hopen : restartEnv.fault .openFile = none) (hread : restartEnv.fault .readFile = none) :
    ∃ loaded, fromDisk lib restartEnv (Config.new []) path (loadYAML lib) (disk path)
      = .ok loaded := by
  obtain ⟨first, _, hfirst, -⟩ := serve_ok hserve
  obtain ⟨document, newFirst, hdocument, hloader, hpost⟩ := fromDisk_ok hfirst
  have hadmissible := postLoad_ok_iff.mp ⟨_, hpost⟩
  obtain ⟨data, converted, hdata, -⟩ := fromDisk_yaml_ok (hdocument ▸ hfirst)
  unfold loadYAML at hloader
  rw [hdata] at hloader
  obtain rfl := Except.ok.inj hloader
  rw [hdocument]
  exact exists_fromDisk (Config.new []) path hopen hread hdata hadmissible

end Main

/-- **When an update survives a restart.**  A node has started from a path; requests have been
handled since, with whatever result, and the health checks have been at work; then an update of the
class succeeds.  If the path can be read, a restart loads a configuration.  This one has what the
update means exactly when the path ends in `.json` or `.yaml` and the update is unambiguous, or when
the path is another one and the file already meant the same at the first start: such a file is still
what it was.  In the first case the whole of `serve`, if it completes, leaves that configuration. -/
theorem restart_iff {lib : Libraries β} {D : Domain} (hjson : RoundTrips lib D)
    (hyaml : RoundTripsYAML lib D) (hreads : ReadsJSON lib D) {path : String}
    {disk : String → Option (File β)} {loadEnv env : Env} {started : Node β}
    (hserve : (serve lib loadEnv env path).run (.initial disk) = .ok () started)
    (activities : List Activity) {updateEnv : Env} {newConfig : Config} {node : Node β}
    (hin : newConfig.toConfigData.In D)
    (hupdate : (handleConfigUpdate lib updateEnv (some newConfig)).run
      (activities.foldl (carryOut lib) started) = .ok () node)
    (restartEnv : Env) (hopen : restartEnv.fault .openFile = none)
    (hread : restartEnv.fault .readFile = none) :
    ∃ loaded, fromDisk lib restartEnv (Config.new []) path (loadYAML lib) (node.disk path)
        = .ok loaded ∧
      (Restored newConfig.toConfigData loaded.toConfigData ↔
        (Rewritten path ∧ Unambiguous newConfig.zones) ∨
          (¬ Rewritten path ∧ ∃ first,
            fromDisk lib restartEnv (Config.new []) path (loadYAML lib) (disk path) = .ok first ∧
              Restored newConfig.toConfigData first.toConfigData)) ∧
      (¬ Rewritten path →
        fromDisk lib restartEnv (Config.new []) path (loadYAML lib) (disk path) = .ok loaded) ∧
      (Rewritten path → Unambiguous newConfig.zones → ∀ saveEnv restarted,
        (serve lib restartEnv saveEnv path).run (.initial node.disk) = .ok () restarted →
          restarted.config.toConfigData = loaded.toConfigData) := by
  by_cases hpath : Rewritten path
  · have hnode := base_activities lib activities started
    rw [(serve_frame hserve).1] at hnode
    obtain ⟨loaded, hload, hiff, hagain⟩ :=
      restart_of_rewritten hjson hyaml hreads hin hpath hnode hupdate hopen hread
    refine ⟨loaded, hload, ?_, fun hnot => absurd hpath hnot, fun _ => hagain⟩
    rw [hiff]
    constructor
    · exact fun hnames => Or.inl ⟨hpath, hnames⟩
    · rintro (⟨-, hnames⟩ | ⟨hnot, -⟩)
      · exact hnames
      · exact absurd hpath hnot
  · obtain ⟨loaded, hload⟩ := exists_fromDisk_again hserve hopen hread
    rw [disk_of_not_rewritten hpath hserve activities hupdate]
    refine ⟨loaded, hload, ?_, fun _ => hload, fun h => absurd h hpath⟩
    constructor
    · exact fun hrestored => Or.inr ⟨hpath, loaded, hload, hrestored⟩
    · rintro (⟨h, -⟩ | ⟨-, first, hfirst, hrestored⟩)
      · exact absurd h hpath
      · rw [hload] at hfirst
        rw [Except.ok.inj hfirst]
        exact hrestored

/-! ## A file with another extension -/

/-- A disk with a configuration under a path. -/
def diskWith (path : String) : String → Option (File ConfigData) :=
  Function.update (fun _ => none) path (some (.doc zonedDocument))

/-- An update as a client sends it: the same zone, and a longer wait at a shutdown. -/
def updatedConfig : Config :=
  { Config.new [] with
    peers := zonedDocument.peers
    shutdownWait := 5000000000
    zones := Finmap.singleton "test." (some {
      soa := some ⟨"test.", "admin.test.", 60, 1, 60, 1, 120⟩
      ns := some ⟨["ns.test."], 60⟩
      records := some [some ⟨.a, "web.test.", some [("addresses", .arr [.str "10.0.0.1"])],
        none⟩] }) }

/-- A start from a path and the update. -/
def startAndUpdate (path : String) : Prog ConfigData Unit := do
  serve plainLibraries calmEnv calmEnv path
  handleConfigUpdate plainLibraries calmEnv (some updatedConfig)

theorem readsJSON_plainLibraries : ReadsJSON plainLibraries Domain.all := by
  intro d document _ h
  obtain rfl := Except.ok.inj h
  exact ⟨d, rfl, rfl, rfl, rfl, rfl, fun _ => rfl⟩

theorem unambiguous_updatedConfig : Unambiguous updatedConfig.zones := by
  refine ⟨by decide +kernel, fun k l zone zone' hk hl _ => ?_⟩
  have hkey : ∀ key zone, updatedConfig.zones.lookup key = some zone → key = "test." := by
    intro key zone hzone
    by_contra hne
    have hnone : updatedConfig.zones.lookup key = none :=
      Finmap.lookup_eq_none.mpr fun hmem => hne (Finmap.mem_singleton _ _ _ |>.mp hmem)
    rw [hnone] at hzone
    exact absurd hzone (by simp)
  obtain rfl := hkey k zone hk
  obtain rfl := hkey l zone' hl
  rw [hk] at hl
  rw [Option.some.inj hl]

theorem restart_iff_yaml :
    ∃ started node loaded,
      (serve plainLibraries calmEnv calmEnv "/etc/border/config.yaml").run
        (.initial (diskWith "/etc/border/config.yaml")) = .ok () started ∧
      (handleConfigUpdate plainLibraries calmEnv (some updatedConfig)).run started
        = .ok () node ∧
      fromDisk plainLibraries calmEnv (Config.new []) "/etc/border/config.yaml"
        (loadYAML plainLibraries) (node.disk "/etc/border/config.yaml") = .ok loaded ∧
      Restored updatedConfig.toConfigData loaded.toConfigData := by
  have heval : runOkWith (fun _ => true) ((startAndUpdate "/etc/border/config.yaml").run
      (.initial (diskWith "/etc/border/config.yaml"))) = true := by
    decide +kernel
  obtain ⟨_, node, hrun, -⟩ := runOkWith_eq_true heval
  obtain ⟨_, started, hserve, hupdate⟩ := run_bind_ok hrun
  obtain ⟨loaded, hload, hiff, -⟩ := restart_iff roundTrips_plainLibraries
    roundTripsYAML_plainLibraries readsJSON_plainLibraries hserve [] (ConfigData.in_all _) hupdate
    calmEnv rfl rfl
  refine ⟨started, node, loaded, hserve, hupdate, hload, hiff.mpr (Or.inl ⟨?_, ?_⟩)⟩
  · decide
  · exact unambiguous_updatedConfig

/-- **The update is gone.**  A node that was started from `/etc/border/config.yml` accepts an
update, and a restart loads the configuration of the first start. -/
theorem restart_reverts :
    ∃ started node loaded,
      (serve plainLibraries calmEnv calmEnv "/etc/border/config.yml").run
        (.initial (diskWith "/etc/border/config.yml")) = .ok () started ∧
      (handleConfigUpdate plainLibraries calmEnv (some updatedConfig)).run started
        = .ok () node ∧
      node.config.shutdownWait = 5000000000 ∧
      fromDisk plainLibraries calmEnv (Config.new []) "/etc/border/config.yml"
        (loadYAML plainLibraries) (node.disk "/etc/border/config.yml") = .ok loaded ∧
      loaded.shutdownWait = 0 ∧
      ¬ Restored updatedConfig.toConfigData loaded.toConfigData := by
  have heval : runOkWith (fun node => decide (node.config.shutdownWait = 5000000000) &&
      okWith (fun loaded => decide (loaded.shutdownWait = 0))
        (fromDisk plainLibraries calmEnv (Config.new []) "/etc/border/config.yml"
          (loadYAML plainLibraries) (node.disk "/etc/border/config.yml")))
      ((startAndUpdate "/etc/border/config.yml").run
        (.initial (diskWith "/etc/border/config.yml"))) = true := by
    decide +kernel
  obtain ⟨_, node, hrun, htest⟩ := runOkWith_eq_true heval
  obtain ⟨hwait, hload⟩ := Bool.and_eq_true_iff.mp htest
  obtain ⟨loaded, hloaded, hzero⟩ := okWith_eq_true hload
  obtain ⟨_, started, hserve, hupdate⟩ := run_bind_ok hrun
  have hold : loaded.shutdownWait = 0 := of_decide_eq_true hzero
  refine ⟨started, node, loaded, hserve, hupdate, of_decide_eq_true hwait, hloaded, hold, ?_⟩
  intro hrestored
  have hnew : loaded.shutdownWait = 5000000000 := hrestored.shutdownWait
  rw [hold] at hnew
  exact absurd hnew (by decide)

end Border
