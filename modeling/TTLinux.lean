import TTLinux.Analysis.DnSkipnameNames
import TTLinux.Analysis.DtoaPrintf
import TTLinux.Analysis.ExternGroupFetch
import TTLinux.Analysis.ExternGroupOrder
import TTLinux.Analysis.FstatLines
import TTLinux.Analysis.FtwBlocks
import TTLinux.Analysis.FtwChdir
import TTLinux.Analysis.FtwFaults
import TTLinux.Analysis.FtwGraph
import TTLinux.Analysis.FtwMount
import TTLinux.Analysis.FtwPathBuffer
import TTLinux.Analysis.FtwStartNames
import TTLinux.Analysis.FtwStops
import TTLinux.Analysis.FtwStreams
import TTLinux.Analysis.FtwTree
import TTLinux.Analysis.GetoptProgress
import TTLinux.Analysis.GetoptSelect
import TTLinux.Analysis.GettextBounds
import TTLinux.Analysis.GettextFallback
import TTLinux.Analysis.GettextPlural
import TTLinux.Analysis.GettextSwap
import TTLinux.Analysis.GpioAbsentChip
import TTLinux.Analysis.GpioArrays
import TTLinux.Analysis.GpioExports
import TTLinux.Analysis.GpioLedProbe
import TTLinux.Analysis.GpioLeds
import TTLinux.Analysis.GpioMinors
import TTLinux.Analysis.GpioSetup
import TTLinux.Analysis.GpioVt1211
import TTLinux.Analysis.GreylistRuns
import TTLinux.Analysis.GreylistTimes
import TTLinux.Analysis.LocaleRuns
import TTLinux.Analysis.MemalignBlocks
import TTLinux.Analysis.MinitSysV
import TTLinux.Analysis.PipedirBuffer
import TTLinux.Analysis.PrintfBuffer
import TTLinux.Analysis.PrintfDecimal
import TTLinux.Analysis.PrintfGeneral
import TTLinux.Analysis.PrintfHexValue
import TTLinux.Analysis.PrintfRetry
import TTLinux.Analysis.SambaGroupsLines
import TTLinux.Analysis.SambaGroupsUrldecode
import TTLinux.Analysis.SearchDelete
import TTLinux.Analysis.SearchRuns
import TTLinux.Analysis.SearchWalk
import TTLinux.Analysis.SslMyWrite
import TTLinux.Analysis.SslRelay
import TTLinux.Analysis.StrptimeDate
import TTLinux.Analysis.UrlFilterCheckconfig
import TTLinux.Analysis.UrlFilterKeyvalue
import TTLinux.Analysis.UrlFilterMatch
import TTLinux.Analysis.UrlFilterQuery
