/-!
# Categories

The cycles of a core are booked under named categories.  Most names come from the counters of a
run; the ones below are read or written by the accounting itself.
-/

namespace CycleAccounting.Category

/-- Cycles not explained by anything more specific. -/
def base : String := "Base"

/-- Cycles lost to the dispatch width. -/
def issue : String := "Issue"

/-- What is left of a core's budget once every other category is booked. -/
def imbalance : String := "Imbalance"

/-- Time before the core began its work. -/
def startTime : String := "StartTime"

def futex : String := "SyncFutex"

def mutex : String := "SyncPthreadMutex"

def cond : String := "SyncPthreadCond"

def barrier : String := "SyncPthreadBarrier"

def join : String := "SyncJoin"

def memAccess : String := "SyncMemAccess"

def recv : String := "Recv"

/-- The categories that do not count as computing. -/
def nonCompute : List String := [startTime, imbalance, cond, barrier, join, recv]

end CycleAccounting.Category
