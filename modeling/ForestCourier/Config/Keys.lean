/-!
The names of the options, and what holds where an option is not given.
-/

namespace ForestCourier.Config

namespace Key

def mode : String := "mapreduce.marklogic.mode"
def outputHost : String := "mapreduce.marklogic.output.host"
def outputPort : String := "mapreduce.marklogic.output.port"
def outputFastLoad : String := "mapreduce.marklogic.output.fastload"
def assignmentPolicy : String := "mapreduce.marklogic.output.assignmentpolicy"
def batchSize : String := "mapreduce.marklogic.output.batchsize"
def transactionSize : String := "mapreduce.marklogic.output.transactionsize"
def outputPermission : String := "mapreduce.marklogic.output.content.permission"
def outputCollection : String := "mapreduce.marklogic.output.content.collection"
def outputQuality : String := "mapreduce.marklogic.output.content.quality"
def outputEncoding : String := "mapreduce.marklogic.output.content.encoding"
def outputContentType : String := "mapreduce.marklogic.output.content.type"
def outputTemporalCollection : String := "mapreduce.marklogic.output.temporalcollection"
def outputUriPrefix : String := "mapreduce.marklogic.output.urlprefix"
def outputUriSuffix : String := "mapreduce.marklogic.output.urlsuffix"
def outputPartition : String := "mapreduce.marklogic.output.partition"
def outputRestrictHosts : String := "mapreduce.marklogic.output.restricthosts"
def outputTopology : String := "mapreduce.marklogic.output.topology"
def inputHost : String := "mapreduce.marklogic.input.host"
def inputPort : String := "mapreduce.marklogic.input.port"
def inputMaxSplitSize : String := "mapreduce.marklogic.input.maxsplitsize"
def inputRestrictHosts : String := "mapreduce.marklogic.input.restricthosts"
def inputQuery : String := "mapreduce.marklogic.input.query"
def inputRedactionRules : String := "mapreduce.marklogic.input.redaction.rules"

def all : List String :=
  [mode, outputHost, outputPort, outputFastLoad, assignmentPolicy, batchSize, transactionSize,
    outputPermission, outputCollection, outputQuality, outputEncoding, outputContentType,
    outputTemporalCollection, outputUriPrefix, outputUriSuffix, outputPartition,
    outputRestrictHosts, outputTopology, inputHost, inputPort, inputMaxSplitSize,
    inputRestrictHosts, inputQuery, inputRedactionRules]

end Key

def defaultPort : UInt16 := 8000

def defaultBatchSize : UInt64 := 100

def defaultTransactionDocuments : UInt64 := 1000

def defaultMaxSplitSize : UInt64 := 50000

def defaultInputQuery : String := "fn:collection()"

end ForestCourier.Config
