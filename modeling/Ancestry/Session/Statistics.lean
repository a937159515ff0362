/-!
Counters of the caches.
-/

namespace Ancestry

/-- How often each cache was asked with and without success, how many reads took place and how many
of them failed. -/
structure Statistics where
  contentHits : Int := 0
  contentMisses : Int := 0
  providesHits : Int := 0
  providesMisses : Int := 0
  importerHits : Int := 0
  importerMisses : Int := 0
  fileReads : Int := 0
  failedReads : Int := 0
  deriving DecidableEq, Repr

/-- The counters of both, summed. -/
def Statistics.merge (a b : Statistics) : Statistics where
  contentHits := a.contentHits + b.contentHits
  contentMisses := a.contentMisses + b.contentMisses
  providesHits := a.providesHits + b.providesHits
  providesMisses := a.providesMisses + b.providesMisses
  importerHits := a.importerHits + b.importerHits
  importerMisses := a.importerMisses + b.importerMisses
  fileReads := a.fileReads + b.fileReads
  failedReads := a.failedReads + b.failedReads

end Ancestry
