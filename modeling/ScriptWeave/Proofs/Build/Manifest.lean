import ScriptWeave.Build.ManifestReader
import ScriptWeave.Proofs.Text.JsonReader

/-!
Records that are written and read again. Every record is read off its own text: the fields are found
under their names, and what is left out of an entry is what a blank entry has.
-/

namespace ScriptWeave
namespace Manifest

open Text (Json)

namespace Shelf

variable {α β : Type} {item : List String → α → Json → Except Mismatch α} {blank : α}
  {write : β → Json} {value : β → α}

/-- Values that are read off blank entries are read off a list of them. -/
theorem fill_map (hitem : ∀ back b, item back blank (write b) = .ok (value b)) (back : List String)
    (n : Nat) (bs : List β) :
    fill item blank back n [] (bs.map write) = .ok ⟨bs.map value, []⟩ := by
  induction bs generalizing n with
  | nil => rfl
  | cons b bs ih =>
      rw [List.map_cons, fill, List.headD_nil, hitem, List.drop_nil, ih (n + 1)]
      rfl

theorem read_map (value : β → α) (hitem : ∀ back b, item back blank (write b) = .ok (value b))
    (expected : String) (back : List String) (bs : List β) :
    read item blank expected back none (.array (bs.map write)) = .ok (some ⟨bs.map value, []⟩) := by
  cases bs with
  | nil => rfl
  | cons b bs =>
      have hfill := fill_map hitem back 0 (b :: bs)
      rw [List.map_cons] at hfill ⊢
      rw [read]
      · simp only [Option.map_none, Option.getD_none, hfill]
        rfl
      · simp

end Shelf

namespace EntryDraft

/-- What an entry is read as. -/
def ofEntry (e : ManifestEntry) : EntryDraft :=
  ⟨e.id, e.kind, if e.members = [] then none else some ⟨e.members, []⟩, e.target⟩

theorem finish_ofEntry (e : ManifestEntry) : (ofEntry e).finish = e := by
  obtain ⟨id, kind, members, target⟩ := e
  by_cases h : members = []
  · simp [ofEntry, finish, h]
  · simp [ofEntry, finish, h]

variable (back : List String) (d : EntryDraft)

attribute [local simp] readField readText bind Except.bind pure Except.pure

theorem readField_id (s : String) :
    readField back d ("id", .string s) = .ok { d with id := s } := by
  have hname : Text.fold "id" = "id" := by decide
  simp [hname]

theorem readField_kind (s : String) :
    readField back d ("kind", .string s) = .ok { d with kind := s } := by
  have hname : Text.fold "kind" = "kind" := by decide
  simp [hname]

theorem readField_members (hmembers : d.members = none) (texts : List String) :
    readField back d ("members", .ofTexts texts) = .ok { d with members := some ⟨texts, []⟩ } := by
  have hname : Text.fold "members" = "members" := by decide
  have hread : Shelf.read readText "" "[]string" ("members" :: back) none (.ofTexts texts) =
      .ok (some ⟨texts.map fun s => s, []⟩) :=
    Shelf.read_map (fun s => s) (fun _ _ => rfl) "[]string" ("members" :: back) texts
  rw [List.map_id'] at hread
  simp [hname, hmembers, hread]

theorem readField_target (s : String) :
    readField back d ("target", .string s) = .ok { d with target := s } := by
  have hname : Text.fold "target" = "target" := by decide
  simp [hname]

theorem read_entryJson (e : ManifestEntry) : read back blank (entryJson e) = .ok (ofEntry e) := by
  obtain ⟨id, kind, members, target⟩ := e
  have hfields (fields : List (String × Json)) : read back blank (.object
      ([("id", .string id), ("kind", .string kind)] ++ fields)) =
        fields.foldlM (readField back) ⟨id, kind, none, ""⟩ := by
    simp only [read, blank, List.cons_append, List.nil_append, List.foldlM_cons, readField_id,
      readField_kind]
    rfl
  have hmembers : (if members.isEmpty then [] else [("members", Json.ofTexts members)]).foldlM
      (readField back) ⟨id, kind, none, ""⟩ =
        .ok ⟨id, kind, if members = [] then none else some ⟨members, []⟩, ""⟩ := by
    cases members with
    | nil => rfl
    | cons member members =>
        rw [List.isEmpty_cons, if_neg Bool.false_ne_true, List.foldlM_cons,
          readField_members _ _ rfl]
        rfl
  have htarget (d : EntryDraft) (hd : d.target = "") :
      (if target = "" then [] else [("target", Json.string target)]).foldlM (readField back) d =
        .ok { d with target } := by
    by_cases h : target = ""
    · rw [if_pos h, h, ← hd]
      rfl
    · rw [if_neg h, List.foldlM_cons, readField_target]
      rfl
  rw [entryJson, List.append_assoc, hfields, List.foldlM_append, hmembers]
  exact htarget _ rfl

end EntryDraft

namespace Draft

variable (d : Draft)

attribute [local simp] readField readText bind Except.bind pure Except.pure

theorem readField_runId (s : String) :
    readField d ("run_id", .string s) = .ok { d with runId := s } := by
  have hname : Text.fold "run_id" = "run_id" := by decide
  simp [hname]

theorem readField_sourceDigest (s : String) :
    readField d ("source_digest", .string s) = .ok { d with sourceDigest := s } := by
  have hname : Text.fold "source_digest" = "source_digest" := by decide
  simp [hname]

theorem readField_outputDigest (s : String) :
    readField d ("output_digest", .string s) = .ok { d with outputDigest := s } := by
  have hname : Text.fold "output_digest" = "output_digest" := by decide
  simp [hname]

theorem readField_modules {v : Json} {modules : Option (Shelf EntryDraft)}
    (h : Shelf.read EntryDraft.read .blank "[]cli.ManifestEntry" ["modules"] d.modules v =
      .ok modules) : readField d ("modules", v) = .ok { d with modules } := by
  have hname : Text.fold "modules" = "modules" := by decide
  simp [hname, h]

theorem read_toJson (m : Manifest) : ∃ draft, read m.toJson = .ok draft ∧ draft.finish = m := by
  obtain ⟨runId, sourceDigest, outputDigest, modules⟩ := m
  have hread {v : Json} {shelf : Option (Shelf EntryDraft)}
      (h : Shelf.read EntryDraft.read .blank "[]cli.ManifestEntry" ["modules"] none v = .ok shelf) :
      read (.object [("run_id", .string runId), ("source_digest", .string sourceDigest),
        ("output_digest", .string outputDigest), ("modules", v)]) =
          .ok ⟨runId, sourceDigest, outputDigest, shelf⟩ := by
    have hmodules := readField_modules ⟨runId, sourceDigest, outputDigest, none⟩ h
    simp only [read, List.foldlM_cons, readField_runId, readField_sourceDigest,
      readField_outputDigest]
    change (readField ⟨runId, sourceDigest, outputDigest, none⟩ ("modules", v) >>= pure) = _
    rw [hmodules]
    rfl
  cases modules with
  | none => exact ⟨_, hread rfl, rfl⟩
  | some entries =>
      refine ⟨_, hread (Shelf.read_map EntryDraft.ofEntry EntryDraft.read_entryJson _ _ entries),
        ?_⟩
      simp [finish, Function.comp_def, EntryDraft.finish_ofEntry]

end Draft

theorem legibleItems_texts (texts : List String) (room : Nat) :
    Json.LegibleItems room (texts.map Json.string) := by
  induction texts with
  | nil => simp [Json.LegibleItems]
  | cons s texts ih => exact ⟨by simp [Json.Legible], ih⟩

theorem legible_entryJson (e : ManifestEntry) (room : Nat) :
    Json.Legible (room + 2) (entryJson e) := by
  obtain ⟨id, kind, members, target⟩ := e
  have htexts := legibleItems_texts members room
  cases hmembers : members.isEmpty <;> by_cases htarget : target = "" <;>
    simp [entryJson, hmembers, htarget, Json.Legible, Json.LegibleFields, Json.ofTexts, htexts]

theorem legibleItems_entries (entries : List ManifestEntry) (room : Nat) :
    Json.LegibleItems (room + 2) (entries.map entryJson) := by
  induction entries with
  | nil => simp [Json.LegibleItems]
  | cons e entries ih => exact ⟨legible_entryJson e room, ih⟩

theorem legible_toJson (m : Manifest) : Json.Legible Json.maxDepth m.toJson := by
  have hentries (entries : List ManifestEntry) := legibleItems_entries entries 9996
  cases hmodules : m.modules with
  | none => simp [toJson, hmodules, Json.Legible, Json.LegibleFields, Json.maxDepth]
  | some entries =>
      simp [toJson, hmodules, Json.Legible, Json.LegibleFields, Json.maxDepth, hentries]

/-- A record is read off its text. -/
theorem parse_render (m : Manifest) : parse m.render = .ok m := by
  obtain ⟨draft, hread, hfinish⟩ := Draft.read_toJson m
  rw [parse, render, Json.parse_indented (legible_toJson m)]
  simp only [hread, hfinish]

end Manifest
end ScriptWeave
