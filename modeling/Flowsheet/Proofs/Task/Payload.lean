import Flowsheet.Proofs.Json.Text
import Flowsheet.Proofs.Time.Instant
import Flowsheet.Task.Raw

set_option autoImplicit false

namespace Flowsheet

namespace RawPayload

variable {r : RawPayload}

open Json (spelling)

def members (r : RawPayload) : List (String × Json) :=
  let name (k : String) := spelling (Text.bytes k)
  [(name "industry_dir", .string (spelling r.industryDir))] ++
    (if r.outputDir = [] then [] else [(name "output_dir", .string (spelling r.outputDir))]) ++
    [(name "trigger", .string (spelling (Text.bytes r.trigger))), (name "enqueued_at", .string r.enqueuedAt.text)]

theorem spelled?_encode (r : RawPayload) : Json.spelled? r.encode = some (.object r.members) := by
  have time := Json.spells_quote r.enqueuedAt.text
  rw [Instant.spelling_text] at time
  refine Json.spelled?_objectText ?_ (by simp)
  refine List.rel_append (List.rel_append ?_ ?_) ?_
  · exact .cons ⟨rfl, Json.spells_quoteBytes _⟩ .nil
  · split
    · exact .nil
    · exact .cons ⟨rfl, Json.spells_quoteBytes _⟩ .nil
  · exact .cons ⟨rfl, Json.spells_quote _⟩ (.cons ⟨rfl, time⟩ .nil)

theorem decode?_encode (writable : r.enqueuedAt.isWritable = true) : Payload.decode? r.encode = some r.shown := by
  have sets : List.Forall₂ (Json.Sets Payload.field) r.members
      ([fun p => { p with industryDir := Text.ofBytes r.industryDir }] ++
        (if r.outputDir = [] then [] else [fun p => { p with outputDir := Text.ofBytes r.outputDir }]) ++
        [fun p => { p with trigger := Text.ofBytes (Text.bytes r.trigger) },
          fun p => { p with enqueuedAt := r.enqueuedAt }]) := by
    refine List.rel_append (List.rel_append ?_ ?_) ?_
    · exact .cons (.of_small (by decide +kernel) rfl nofun (Json.string?_spelling _ _)) .nil
    · split
      · exact .nil
      · exact .cons (.of_small (by decide +kernel) rfl nofun (Json.string?_spelling _ _)) .nil
    · refine .cons (.of_small (by decide +kernel) rfl nofun (Json.string?_spelling _ _)) ?_
      refine .cons (.of_small (by decide +kernel) rfl nofun ?_) .nil
      simp only [Instant.parse?_text writable, Option.map_some]
  rw [Payload.decode?, spelled?_encode]
  refine (Json.record?_object sets {}).trans (congrArg some ?_)
  by_cases usual : r.outputDir = []
  · have left : Text.ofBytes [] = "" := Text.ofBytes_eq_empty_iff.mpr rfl
    simp [usual, shown, left, Text.ofBytes_bytes]
  · simp [usual, shown, Text.ofBytes_bytes]

theorem encode_ofPayload (p : Payload) : (ofPayload p).encode = p.encode := by
  rw [encode, Payload.encode, Json.render_object]
  by_cases usual : p.outputDir = ""
  · simp [ofPayload, Json.quoteBytes_bytes, Json.render, usual, Text.bytes_eq_nil_iff.mpr rfl]
  · simp [ofPayload, Json.quoteBytes_bytes, Json.render, usual, Text.bytes_eq_nil_iff]

theorem completed_ofPayload (now : Instant) (p : Payload) :
    (ofPayload p).completed now = ofPayload (Tasks.completed now p) := rfl

end RawPayload

theorem Payload.industryDir_of_encode {p r : Payload} (same : p.encode = r.encode) :
    p.industryDir = r.industryDir := by
  rw [← RawPayload.encode_ofPayload, ← RawPayload.encode_ofPayload] at same
  have read := RawPayload.spelled?_encode (.ofPayload p)
  rw [same, RawPayload.spelled?_encode] at read
  have members := Json.object.inj (Option.some.inj read)
  have first := congrArg Json.unescaped (Json.string.inj (Prod.mk.inj (List.cons.inj members).1).2)
  rw [Json.unescaped_spelling, Json.unescaped_spelling] at first
  simpa [RawPayload.ofPayload, Text.ofBytes_bytes] using first.symm

end Flowsheet
