import EchoAlign.Audio.Block

/-!
# `EchoAlign.Proofs.Audio.Samples`: runs of bytes as runs of samples

A sample takes two bytes, so that a run of bytes can be read as samples
piece by piece wherever the pieces are even.

* `samplesOfBytes_append`: behind an even number of bytes, reading starts
  afresh.
* `samplesOfBytes_flatMap`: samples that were written are read again, and a
  byte that is left over is no sample.
* `flatMap_samplesOfBytes`: bytes that were read are written again, all but a
  byte that is left over.
* `bytesOfSamples_append`: samples are written one after another.
-/

set_option autoImplicit false

namespace EchoAlign

/-- Half as many samples come from `samplesOfBytes` as the array has bytes,
rounded down. -/
theorem length_samplesOfBytes_data (bytes : ByteArray) :
    (samplesOfBytes bytes.data.toList).length = bytes.size / 2 := by
  rw [length_samplesOfBytes, Array.length_toList, ByteArray.size_data]

/-- Behind an even number of bytes, the next sample begins. The induction is
that of `samplesOfBytes`, two bytes at a time. -/
theorem samplesOfBytes_append {first : List UInt8} (heven : 2 ∣ first.length)
    (rest : List UInt8) :
    samplesOfBytes (first ++ rest) = samplesOfBytes first ++ samplesOfBytes rest := by
  induction first using samplesOfBytes.induct with
  | case1 low high first ih =>
      have heven : 2 ∣ first.length := by
        simp only [List.length_cons] at heven
        omega
      simp only [List.cons_append, samplesOfBytes, ih heven]
  | case2 => rfl
  | case3 byte =>
      -- A single byte is no even number of them.
      rw [List.length_singleton] at heven
      omega

/-- Behind an even number of bytes of one array, the samples that
`samplesOfBytes` reads of the next one begin. -/
theorem samplesOfBytes_append_data {a : ByteArray} (heven : 2 ∣ a.size) (b : ByteArray) :
    samplesOfBytes (a ++ b).data.toList
      = samplesOfBytes a.data.toList ++ samplesOfBytes b.data.toList := by
  rw [toList_append_bytes]
  refine samplesOfBytes_append ?_ _
  rwa [Array.length_toList, ByteArray.size_data]

/-- Samples are read from their bytes as they were written. At most one byte may
follow them, and is not read. It is `sampleOfBytes_bytesOfSample`, sample by
sample. -/
theorem samplesOfBytes_flatMap (samples : List Int16) {rest : List UInt8}
    (hrest : rest.length ≤ 1) :
    samplesOfBytes (samples.flatMap bytesOfSample ++ rest) = samples := by
  induction samples with
  | nil =>
      have hnone : samplesOfBytes rest = [] := by
        refine List.length_eq_zero_iff.mp ?_
        rw [length_samplesOfBytes]
        omega
      exact hnone
  | cons sample samples ih =>
      rw [List.flatMap_cons, List.append_assoc]
      show sampleOfBytes _ _ :: samplesOfBytes (samples.flatMap bytesOfSample ++ rest) = _
      rw [ih, sampleOfBytes_bytesOfSample]

/-- Bytes are written as they were read. A trailing odd byte is lost. It is
`bytesOfSample_sampleOfBytes`, two bytes at a time. -/
theorem flatMap_samplesOfBytes (bytes : List UInt8) :
    (samplesOfBytes bytes).flatMap bytesOfSample
      = bytes.take (bytes.length - bytes.length % 2) := by
  induction bytes using samplesOfBytes.induct with
  | case1 low high rest ih =>
      have hlen : (low :: high :: rest).length - (low :: high :: rest).length % 2
          = rest.length - rest.length % 2 + 1 + 1 := by
        simp only [List.length_cons]
        omega
      rw [samplesOfBytes, List.flatMap_cons, bytesOfSample_sampleOfBytes, ih, hlen,
        List.take_succ_cons, List.take_succ_cons]
      rfl
  | case2 => rfl
  | case3 byte => rfl

/-- What `bytesOfSamples` gives for samples in two parts are the bytes of the
first and then of the second. -/
theorem bytesOfSamples_append (first rest : List Int16) :
    bytesOfSamples (first ++ rest) = bytesOfSamples first ++ bytesOfSamples rest := by
  refine ByteArray.ext (Array.ext' ?_)
  rw [toList_append_bytes, toList_bytesOfSamples, toList_bytesOfSamples, toList_bytesOfSamples,
    List.flatMap_append]

end EchoAlign
